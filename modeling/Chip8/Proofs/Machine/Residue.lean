import Chip8.Proofs.Machine.Confinement
import Chip8.Proofs.Registers

/-! # What a failed step leaves

An instruction has its effect before the program counter moves, so that one which finds
no place to go to has had it all the same. What a failed step leaves of a machine is told
by the instruction and by what it failed for.
-/

namespace Chip8

def StepError.outside (n : Nat) : StepError := .fault (.outOfBounds (.ofNat n))

theorem Address.cell_eq_error_iff {a : Address} {f : Fault} :
    a.cell = .error f ↔ 4096 ≤ a.toNat ∧ f = .outOfBounds (.ofNat a.toNat) := by
  rw [UInt64.ofNat_toNat]
  rcases Nat.lt_or_ge a.toNat 4096 with low | high
  · simp [cell_eq_ok low, low]
  · simp [cell_eq_error high, high, eq_comm]

/-- How far a comparison of two bytes leads: to the next word, or over it. -/
def Comparison.leap : Comparison → UInt8 → UInt8 → Nat
  | equal, a, b => if a = b then 4 else 2
  | notEqual, a, b => if a = b then 2 else 4

theorem Comparison.leap_lt (c : Comparison) (a b : UInt8) : c.leap a b < 8 := by
  cases c <;> simp only [leap] <;> split <;> decide

namespace Machine

/-- The value of the register that the last digit of a number names. -/
def held (m : Machine) (x : UInt8) : UInt8 := m.registers.value (x.toNat % 16)

def compared (m : Machine) : Operand → UInt8
  | .byte k => k
  | .register y => m.held y

theorem get_eq_held (m : Machine) (x : UInt8) : m.registers.get x = m.held x :=
  Registers.get_eq_value

theorem operandValue_eq (m : Machine) (o : Operand) : m.operandValue o = m.compared o := by
  cases o with
  | byte => rfl
  | register y => exact m.get_eq_held y

section Sprite

variable (m : Machine) (x y : UInt8) (rows : Nat) (px py : Nat)

def Under : Prop :=
  Screen.Covers (m.held x).toNat (m.held y).toNat rows px py

instance : Decidable (m.Under x y rows px py) := inferInstanceAs (Decidable (Screen.Covers ..))

def bitUnder : Bool :=
  Screen.spriteBitAt m.memory (m.held x).toNat (m.held y).toNat m.index.toUInt64 px py

/-- A screen that shows the first rows of the sprite at the index, and else what was there. -/
def Shows (shown : Screen) : Prop :=
  ∀ px py, shown.pixel px py =
    if m.Under x y rows px py then m.bitUnder x y px py else m.screen.pixel px py

def Collides : Prop :=
  ∃ px py, m.Under x y rows px py ∧ m.screen.pixel px py = true ∧ m.bitUnder x y px py = true

variable {m x y rows}

theorem Shows.unique {shown shown' : Screen} (h : m.Shows x y rows shown)
    (h' : m.Shows x y rows shown') : shown = shown' :=
  Screen.ext_pixel fun px _ py _ => (h px py).trans (h' px py).symm

end Sprite

/-- The register that an instruction gives a value of the registers or of its own, and the value. -/
def assigned (m : Machine) : Instruction → Option (UInt8 × UInt8)
  | .load x k => some (x, k)
  | .add x k => some (x, m.held x + k)
  | .combine .copy x y => some (x, m.held y)
  | .combine .or x y => some (x, m.held x ||| m.held y)
  | .combine .and x y => some (x, m.held x &&& m.held y)
  | .combine .xor x y => some (x, m.held x ^^^ m.held y)
  | _ => none

def visible (m : Machine) (y rows : UInt8) : Nat := min (rows.toNat % 16) (32 - (m.held y).toNat)

/-- What a step that fails reports of a running machine and leaves of it. -/
inductive Residue (m : Machine) : StepError → Machine → Prop where
  | unfetched {e : StepError} (fetched : m.fetch = .error e) :
      Residue m e { m with halted := true }
  | full {t : Word} (fetched : m.fetch = .ok (.call t)) (full : 16 ≤ m.stack.entries.length) :
      Residue m (.fault .stackOverflow) { m with halted := true }
  | empty (fetched : m.fetch = .ok .ret) (empty : m.stack.entries = []) :
      Residue m (.fault .stackUnderflow) { m with halted := true }
  | returned {r : Word} {rest : List Word} (fetched : m.fetch = .ok .ret)
      (top : m.stack.entries = r :: rest) (high : 4096 ≤ r.toNat) :
      Residue m (.outside r.toNat) { m with halted := true, stack := ⟨rest⟩ }
  | skipped {c : Comparison} {x : UInt8} {o : Operand} (fetched : m.fetch = .ok (.skip c x o))
      (high : 4096 ≤ m.pc.toNat + c.leap (m.held x) (m.compared o)) :
      Residue m (.outside (m.pc.toNat + c.leap (m.held x) (m.compared o)))
        { m with halted := true }
  | jumped {a : Word} (fetched : m.fetch = .ok (.jumpOffset a))
      (high : 4096 ≤ a.toNat + (m.held 0).toNat) :
      Residue m (.outside (a.toNat + (m.held 0).toNat)) { m with halted := true }
  | cleared {shown : Screen} (fetched : m.fetch = .ok .clearScreen) (last : m.pc.toNat = 4094)
      (unset : ∀ px py, shown.pixel px py = false) :
      Residue m (.outside 4096) { m with halted := true, screen := shown }
  | assigned {i : Instruction} {x v : UInt8} {registers : Registers} (fetched : m.fetch = .ok i)
      (value : m.assigned i = some (x, v)) (last : m.pc.toNat = 4094)
      (written : m.registers.Assigned x v registers) :
      Residue m (.outside 4096) { m with halted := true, registers }
  | indexed {a : Word} (fetched : m.fetch = .ok (.loadIndex a)) (last : m.pc.toNat = 4094) :
      Residue m (.outside 4096) { m with halted := true, index := a }
  | drew {x mask : UInt8} {registers : Registers} (fetched : m.fetch = .ok (.random x mask))
      (last : m.pc.toNat = 4094)
      (written : m.registers.Assigned x
        (mask &&& RandomSource.byteAt m.random.key m.random.drawn) registers) :
      Residue m (.outside 4096) { m with
        halted := true
        random := { m.random with drawn := m.random.drawn + 1 }
        registers }
  | cut {x y rows : UInt8} {shown : Screen} (fetched : m.fetch = .ok (.draw x y rows))
      (missing : 4096 - m.index.toNat < m.visible y rows)
      (shows : m.Shows x y (4096 - m.index.toNat) shown) :
      Residue m (.outside (max m.index.toNat 4096)) { m with halted := true, screen := shown }
  | painted {x y rows : UInt8} {shown : Screen} {collision : Bool} {registers : Registers}
      (fetched : m.fetch = .ok (.draw x y rows))
      (whole : m.visible y rows ≤ 4096 - m.index.toNat)
      (shows : m.Shows x y (m.visible y rows) shown)
      (collides : collision = true ↔ m.Collides x y (m.visible y rows))
      (last : m.pc.toNat = 4094)
      (written : m.registers.Assigned 0xF collision.toUInt8 registers) :
      Residue m (.outside 4096) { m with halted := true, screen := shown, registers }

variable {m m' : Machine} {i : Instruction} {e : StepError} {f : Fault}

theorem failed_iff (running : m.halted = false) (fetched : m.fetch = .ok i) :
    m.step.result = .error e ∧ m.step.machine = m' ↔
      ∃ f, m.destination i >>= Address.cell = .error f ∧ e = .fault f ∧
        m' = { m.effect i with halted := true } := by
  simp only [step, running, fetched, execute_eq]
  cases hd : m.destination i with
  | error g => simp [bind, Except.bind, eq_comm]
  | ok a =>
    rcases Nat.lt_or_ge a.toNat 4096 with low | high
    · simp [moveTo, low, bind, Except.bind, Address.cell_eq_ok low]
    · simp [moveTo, Nat.not_lt.mpr high, bind, Except.bind, Address.cell_eq_error high, eq_comm]

section Destination

variable (m)

theorem ahead_eq_error_iff {k : Nat} (hk : k < 8) :
    Address.cell (m.pc.toUInt64 + .ofNat k) = .error f ↔
      4096 ≤ m.pc.toNat + k ∧ f = .outOfBounds (.ofNat (m.pc.toNat + k)) := by
  rw [Address.cell_eq_error_iff, m.toNat_pc_add hk]

theorem next_eq_error_iff (low : m.pc.toNat < 4095) :
    Address.cell (m.pc.toUInt64 + 2) = .error f ↔
      m.pc.toNat = 4094 ∧ f = .outOfBounds (.ofNat 4096) := by
  have top : 4096 ≤ m.pc.toNat + 2 ↔ m.pc.toNat = 4094 := by omega
  rw [show (2 : UInt64) = .ofNat 2 from rfl, m.ahead_eq_error_iff (by decide), top]
  exact and_congr_right fun last => by rw [last]

theorem skip_eq_error_iff (c : Comparison) (x : UInt8) (o : Operand) :
    m.destination (.skip c x o) >>= Address.cell = .error f ↔
      4096 ≤ m.pc.toNat + c.leap (m.held x) (m.compared o) ∧
        f = .outOfBounds (.ofNat (m.pc.toNat + c.leap (m.held x) (m.compared o))) := by
  have leads : m.destination (.skip c x o) =
      .ok (m.pc.toUInt64 + .ofNat (c.leap (m.held x) (m.compared o))) := by
    rw [destination, get_eq_held, operandValue_eq]
    cases c <;> by_cases same : m.held x = m.compared o <;>
      simp [Comparison.holds, Comparison.leap, same]
  rw [leads]
  exact m.ahead_eq_error_iff (c.leap_lt _ _)

theorem jumpOffset_eq_error_iff (a : Word) :
    Address.cell (a.toUInt64 + (m.registers.get 0).toUInt64) = .error f ↔
      4096 ≤ a.toNat + (m.held 0).toNat ∧
        f = .outOfBounds (.ofNat (a.toNat + (m.held 0).toNat)) := by
  have sum : (a.toUInt64 + (m.held 0).toUInt64).toNat = a.toNat + (m.held 0).toNat := by
    have := a.toNat_lt
    have := (m.held 0).toNat_lt
    rw [UInt64.toNat_add, UInt16.toNat_toUInt64, UInt8.toNat_toUInt64]
    omega
  rw [get_eq_held, Address.cell_eq_error_iff, sum]

theorem cell_target {t : Word} (short : t < 4096) : Address.cell t.toUInt64 ≠ .error f := by
  intro h
  have := (Address.cell_eq_error_iff.mp h).1
  rw [UInt16.toNat_toUInt64] at this
  exact Nat.not_lt.mpr this (UInt16.lt_iff_toNat_lt.mp short)

/-- The two ways of a draw to fail, with what it leaves on the screen. -/
theorem draw_cases (x y rows : UInt8) :
    (4096 - m.index.toNat < m.visible y rows ∧
      (m.sprite x y rows).2 = .error (.outOfBounds (.ofNat (max m.index.toNat 4096))) ∧
      m.Shows x y (4096 - m.index.toNat) (m.sprite x y rows).1) ∨
    (m.visible y rows ≤ 4096 - m.index.toNat ∧
      m.Shows x y (m.visible y rows) (m.sprite x y rows).1 ∧
      ∃ collision, (m.sprite x y rows).2 = .ok collision ∧
        (collision = true ↔ m.Collides x y (m.visible y rows))) := by
  have index : m.index.toUInt64.toNat = m.index.toNat := UInt16.toNat_toUInt64 _
  have pixels := fun px py => m.screen.pixel_paint px py m.memory m.index.toUInt64
    (m.held x) (m.held y) rows
  rw [sprite, get_eq_held, get_eq_held]
  rcases Nat.lt_or_ge (4096 - m.index.toNat) (m.visible y rows) with missing | whole
  · have readable : Screen.readableRows (m.held y) m.index.toUInt64 rows =
        4096 - m.index.toNat := by
      rw [Screen.readableRows, index]
      exact Nat.min_eq_right (Nat.le_of_lt missing)
    rw [readable] at pixels
    have failed := m.screen.snd_paint_eq_error m.memory m.index.toUInt64 (m.held x) (m.held y)
      rows (by rwa [index])
    rw [index] at failed
    exact Or.inl ⟨missing, failed, pixels⟩
  · have readable : Screen.readableRows (m.held y) m.index.toUInt64 rows = m.visible y rows := by
      rw [Screen.readableRows, index]
      exact Nat.min_eq_left whole
    obtain ⟨c, hc, collides⟩ := m.screen.snd_paint_eq_ok m.memory m.index.toUInt64 (m.held x)
      (m.held y) rows (by rwa [index])
    rw [readable] at pixels collides
    exact Or.inr ⟨whole, pixels, c, hc, collides⟩

end Destination

section Assigned

variable {x v : UInt8}

theorem effect_of_assigned (h : m.assigned i = some (x, v)) :
    m.effect i = { m with registers := m.registers.set x v } := by
  cases i with
  | load => cases h; rfl
  | add => cases h; rw [effect, get_eq_held]
  | combine c => cases c <;> cases h <;> rw [effect, get_eq_held, get_eq_held] <;> rfl
  | _ => cases h

theorem destination_of_assigned (h : m.assigned i = some (x, v)) :
    m.destination i = .ok (m.pc.toUInt64 + 2) := by
  cases i with
  | load | add | combine => rfl
  | _ => cases h

theorem residue_of_assigned (fetched : m.fetch = .ok i) (value : m.assigned i = some (x, v))
    (last : m.pc.toNat = 4094) : Residue m (.outside 4096) { m.effect i with halted := true } := by
  rw [effect_of_assigned value]
  exact .assigned fetched value last Registers.assigned_set

end Assigned

theorem residue_of_destination (fetched : m.fetch = .ok i)
    (h : m.destination i >>= Address.cell = .error f) :
    Residue m (.fault f) { m.effect i with halted := true } := by
  have low := (m.fetch_eq_ok_iff.mp fetched).1
  have range := inRange_of_fetch fetched
  cases i with
  | clearScreen =>
    obtain ⟨last, rfl⟩ := (m.next_eq_error_iff low).mp h
    exact .cleared fetched last Screen.pixel_blank
  | loadIndex a =>
    obtain ⟨last, rfl⟩ := (m.next_eq_error_iff low).mp h
    exact .indexed fetched last
  | random x mask =>
    obtain ⟨last, rfl⟩ := (m.next_eq_error_iff low).mp h
    exact .drew fetched last Registers.assigned_set
  | load x k | add x k =>
    obtain ⟨last, rfl⟩ := (m.next_eq_error_iff low).mp h
    exact residue_of_assigned fetched rfl last
  | combine c x y =>
    obtain ⟨last, rfl⟩ := (m.next_eq_error_iff low).mp h
    cases c with
    | copy | or | and | xor => exact residue_of_assigned fetched rfl last
  | ret =>
    rw [destination, CallStack.pop] at h
    cases hs : m.stack.entries with
    | nil =>
      rw [hs] at h
      obtain rfl := Except.error.inj h
      have kept : m.popped = m.stack := by rw [popped, CallStack.pop, hs]
      rw [effect, kept]
      exact .empty fetched hs
    | cons r rest =>
      rw [hs] at h
      obtain ⟨high, rfl⟩ := Address.cell_eq_error_iff.mp h
      rw [UInt16.toNat_toUInt64] at high ⊢
      have taken : m.popped = ⟨rest⟩ := by rw [popped, CallStack.pop, hs]
      rw [effect, taken]
      exact .returned fetched hs high
  | jump t => exact absurd h (cell_target range)
  | call t =>
    rcases m.pushed_cases with ⟨full, kept⟩ | ⟨room, -⟩
    · rw [destination, CallStack.push, if_neg (Nat.not_lt.mpr full)] at h
      obtain rfl := Except.error.inj h
      rw [effect, kept]
      exact .full fetched full
    · rw [destination, CallStack.push, if_pos room] at h
      exact absurd h (cell_target range)
  | skip c x o =>
    obtain ⟨high, rfl⟩ := (m.skip_eq_error_iff c x o).mp h
    exact .skipped fetched high
  | jumpOffset a =>
    obtain ⟨high, rfl⟩ := (m.jumpOffset_eq_error_iff a).mp h
    exact .jumped fetched high
  | draw x y rows =>
    rcases m.draw_cases x y rows with ⟨missing, failed, shows⟩ | ⟨whole, shows, c, hc, collides⟩
    · rw [destination, failed] at h
      obtain rfl := Except.error.inj h
      rw [effect, failed]
      exact .cut fetched missing shows
    · rw [destination, hc] at h
      obtain ⟨last, rfl⟩ := (m.next_eq_error_iff low).mp h
      rw [effect, hc]
      exact .painted fetched whole shows collides last Registers.assigned_set

theorem residue_of_failed (running : m.halted = false) (failed : m.step.result = .error e) :
    Residue m e m.step.machine := by
  cases hf : m.fetch with
  | error e' =>
    simp only [step, running, hf] at failed ⊢
    obtain rfl := Except.error.inj failed
    exact .unfetched hf
  | ok i =>
    obtain ⟨f, h, rfl, hm⟩ := (failed_iff running hf).mp ⟨failed, rfl⟩
    rw [hm]
    exact residue_of_destination hf h

theorem failed_of_residue (running : m.halted = false) (h : Residue m e m') :
    m.step.result = .error e ∧ m.step.machine = m' := by
  have fails {i : Instruction} {f : Fault} (fetched : m.fetch = .ok i)
      (nowhere : m.destination i >>= Address.cell = .error f)
      (left : m' = { m.effect i with halted := true }) (he : e = .fault f) :
      m.step.result = .error e ∧ m.step.machine = m' :=
    (failed_iff running fetched).mpr ⟨f, nowhere, he, left⟩
  have next {i : Instruction} (fetched : m.fetch = .ok i) (last : m.pc.toNat = 4094)
      (leads : m.destination i = .ok (m.pc.toUInt64 + 2))
      (left : m' = { m.effect i with halted := true }) (he : e = .outside 4096) :
      m.step.result = .error e ∧ m.step.machine = m' := by
    have low := (m.fetch_eq_ok_iff.mp fetched).1
    refine fails fetched ?_ left he
    rw [leads]
    exact (m.next_eq_error_iff low).mpr ⟨last, rfl⟩
  cases h with
  | unfetched fetched =>
    simp only [step, running, fetched]
    exact ⟨rfl, rfl⟩
  | @full t fetched full =>
    have refused : m.stack.push (m.pc + 2) = .error .stackOverflow :=
      CallStack.push_eq_error_iff.mpr ⟨full, rfl⟩
    refine fails fetched (f := .stackOverflow) ?_ ?_ rfl
    · rw [destination, refused]
      rfl
    · rw [effect, pushed, refused]
  | empty fetched empty =>
    have refused : m.stack.pop = .error .stackUnderflow := by rw [CallStack.pop, empty]
    refine fails fetched (f := .stackUnderflow) ?_ ?_ rfl
    · rw [destination, refused]
      rfl
    · rw [effect, popped, refused]
  | @returned r rest fetched top high =>
    have taken : m.stack.pop = .ok (r, ⟨rest⟩) := by rw [CallStack.pop, top]
    refine fails fetched ?_ ?_ rfl
    · rw [destination, taken]
      refine Address.cell_eq_error_iff.mpr ?_
      rw [UInt16.toNat_toUInt64]
      exact ⟨high, rfl⟩
    · rw [effect, popped, taken]
  | skipped fetched high =>
    exact fails fetched ((m.skip_eq_error_iff _ _ _).mpr ⟨high, rfl⟩) rfl rfl
  | jumped fetched high =>
    exact fails fetched ((m.jumpOffset_eq_error_iff _).mpr ⟨high, rfl⟩) rfl rfl
  | @cleared shown fetched last unset =>
    have blank : shown = .blank := Screen.ext_pixel fun px _ py _ =>
      (unset px py).trans (Screen.pixel_blank px py).symm
    exact next fetched last rfl (by rw [blank, effect]) rfl
  | indexed fetched last => exact next fetched last rfl rfl rfl
  | drew fetched last written => exact next fetched last rfl (by rw [written.eq_set]; rfl) rfl
  | assigned fetched value last written =>
    have left := effect_of_assigned value
    exact next fetched last (destination_of_assigned value) (by rw [left, written.eq_set]) rfl
  | @cut x y rows shown fetched missing shows =>
    rcases m.draw_cases x y rows with ⟨-, failed, shows'⟩ | ⟨whole, -⟩
    · refine fails fetched ?_ ?_ rfl
      · rw [destination, failed]
        rfl
      · rw [effect, failed, shows.unique shows']
    · exact absurd missing (Nat.not_lt.mpr whole)
  | @painted x y rows shown collision _ fetched whole shows collides last written =>
    rcases m.draw_cases x y rows with ⟨missing, -⟩ | ⟨-, shows', c, hc, collides'⟩
    · exact absurd missing (Nat.not_lt.mpr whole)
    · have same : collision = c := Bool.eq_iff_iff.mpr (collides.trans collides'.symm)
      refine next fetched last ?_ ?_ rfl
      · rw [destination, hc]
        rfl
      · rw [effect, hc, shows.unique shows', written.eq_set, same]

theorem Residue.kept (h : Residue m e m') :
    m'.halted = true ∧ m'.pc = m.pc ∧ m'.memory = m.memory := by
  cases h <;> exact ⟨rfl, rfl, rfl⟩

/-- Of the instructions that name where they lead, only a call without room fails. -/
theorem Residue.call_of_named (h : Residue m e m') {t : Word} (fetched : m.fetch = .ok i)
    (named : i = .jump t ∨ i = .call t) : i = .call t ∧ e = .fault .stackOverflow := by
  cases h with
  | full h =>
    rcases named with rfl | rfl
    · cases h.symm.trans fetched
    · exact ⟨rfl, rfl⟩
  | assigned h value =>
    cases h.symm.trans fetched
    rcases named with rfl | rfl <;> cases value
  | unfetched h | empty h | returned h | skipped h | jumped h | cleared h | indexed h | drew h
  | cut h | painted h => rcases named with rfl | rfl <;> cases h.symm.trans fetched

/-- A running machine that fails a step is halted where it stood, with its memory untouched and
otherwise just its residue, and each residue is left by such a step. A jump to an address that it
names does not fail, and a call fails only for want of room on the stack. -/
theorem failed_step_exact (running : m.halted = false) :
    (∀ e m', m.step.result = .error e ∧ m.step.machine = m' ↔ Residue m e m') ∧
    (∀ e m', Residue m e m' → m'.halted = true ∧ m'.pc = m.pc ∧ m'.memory = m.memory) ∧
    (∀ t, m.fetch = .ok (.jump t) → m.step.result = .ok ()) ∧
    ∀ t e, m.fetch = .ok (.call t) → m.step.result = .error e → e = .fault .stackOverflow := by
  refine ⟨fun e m' => ⟨?_, failed_of_residue running⟩, fun _ _ => Residue.kept, ?_, ?_⟩
  · rintro ⟨failed, rfl⟩
    exact residue_of_failed running failed
  · intro t fetched
    cases hr : m.step.result with
    | ok => rfl
    | error e => nomatch ((residue_of_failed running hr).call_of_named fetched (Or.inl rfl)).1
  · intro t e fetched failed
    exact ((residue_of_failed running failed).call_of_named fetched (Or.inr rfl)).2

/-- A machine about to draw the two bytes of the last word of memory, which are the draw itself,
over a set cell. -/
def lastDraw : Machine :=
  { fresh ⟨.replicate 8 0, 0⟩ with
    screen := Screen.blank.setPixel 0 0 true
    memory := ⟨Memory.zero.bytes |>.set 0xFFE 0xD0 |>.set 0xFFF 0x12⟩
    pc := 0xFFE
    index := 0xFFE }

theorem failed_step_lastDraw : Residue lastDraw (.outside 4096) lastDraw.step.machine ∧
    lastDraw.step.machine.registers.get 0xF = 1 ∧ lastDraw.step.machine.screen.pixel 3 1 = true := by
  have failed : lastDraw.step.result = .error (.outside 4096) := by decide +kernel
  refine ⟨((failed_step_exact rfl).1 _ _).mp ⟨failed, rfl⟩, ?_⟩
  decide +kernel

end Machine

end Chip8
