import Chip8.Machine.Step
import Chip8.Proofs.Memory.Access
import Chip8.Proofs.Screen.Sprite

/-! # What a step does

An instruction first has an effect that leaves the program counter alone, and then
sends the program counter to a destination or finds that there is none. A step is
one of five things: it is refused because the machine is halted, its fetch fails,
it finds no destination, its destination is outside of memory, or it moves.
-/

namespace Chip8

namespace Machine

variable (m : Machine)

def word : Word := .ofBytes (m.memory.byte m.pc.toNat) (m.memory.byte (m.pc.toNat + 1))

theorem fetch_eq : m.fetch =
    if 4096 ≤ m.pc.toNat then .error (.fault (.outOfBounds m.pc.toUInt64))
    else if m.pc.toNat = 4095 then .error (.fault (.outOfBounds 4096))
    else match Instruction.decode m.word with
      | some i => .ok i
      | none => .error (.unknownInstruction m.word m.pc) := by
  rw [fetch, Memory.readWord_eq, UInt16.toNat_toUInt64]
  by_cases h : 4096 ≤ m.pc.toNat
  · rw [if_pos h, if_pos h]
  · rw [if_neg h, if_neg h]
    by_cases ht : m.pc.toNat = 4095
    · rw [if_pos ht, if_pos ht]
    · rw [if_neg ht, if_neg ht]
      rfl

theorem fetch_eq_ok_iff {i : Instruction} :
    m.fetch = .ok i ↔ m.pc.toNat < 4095 ∧ Instruction.decode m.word = some i := by
  rw [fetch_eq]
  constructor
  · intro h
    split at h
    · cases h
    · split at h
      · cases h
      · split at h
        · rename_i hd
          cases h
          exact ⟨by omega, hd⟩
        · cases h
  · rintro ⟨hp, hd⟩
    rw [if_neg (by omega), if_neg (by omega), hd]

theorem toNat_next (h : m.pc.toNat < 4095) : (m.pc + 2).toNat = m.pc.toNat + 2 := by
  have two : (2 : Word).toNat = 2 := rfl
  rw [UInt16.toNat_add, two]
  exact Nat.mod_eq_of_lt (by omega)

theorem toNat_pc_add {k : Nat} (hk : k < 8) :
    (m.pc.toUInt64 + UInt64.ofNat k).toNat = m.pc.toNat + k := by
  have := m.pc.toNat_lt
  rw [UInt64.toNat_add, UInt16.toNat_toUInt64, UInt64.toNat_ofNat']
  omega

/-- The call stack after a return, as it is if it is empty. -/
def popped : CallStack :=
  match m.stack.pop with
  | .ok (_, s) => s
  | .error _ => m.stack

theorem entries_popped : m.popped.entries = m.stack.entries.tail := by
  unfold popped CallStack.pop
  cases h : m.stack.entries with
  | nil => exact h
  | cons r rest => rfl

def pushed : CallStack :=
  match m.stack.push (m.pc + 2) with
  | .ok s => s
  | .error _ => m.stack

theorem pushed_cases : 16 ≤ m.stack.depth ∧ m.pushed = m.stack ∨
    m.stack.depth < 16 ∧ m.pushed.entries = (m.pc + 2) :: m.stack.entries := by
  unfold pushed CallStack.push
  rcases Nat.lt_or_ge m.stack.depth 16 with h | h
  · rw [if_pos h]
    exact Or.inr ⟨h, rfl⟩
  · rw [if_neg (Nat.not_lt.mpr h)]
    exact Or.inl ⟨h, rfl⟩

def sprite (x y rows : UInt8) : Screen × Except Fault Bool :=
  m.screen.paint m.memory (m.registers.get x) (m.registers.get y) m.index.toUInt64 rows

/-- The machine after all that an instruction does but the move of the program counter. -/
def effect : Instruction → Machine
  | .clearScreen => { m with screen := .blank }
  | .ret => { m with stack := m.popped }
  | .jump _ | .skip _ _ _ | .jumpOffset _ => m
  | .call _ => { m with stack := m.pushed }
  | .load x k => { m with registers := m.registers.set x k }
  | .add x k => { m with registers := m.registers.set x (m.registers.get x + k) }
  | .combine c x y =>
    { m with registers := m.registers.set x (c.apply (m.registers.get x) (m.registers.get y)) }
  | .loadIndex a => { m with index := a }
  | .random x mask =>
    { m with
      random := m.random.draw.2
      registers := m.registers.set x (mask &&& m.random.draw.1) }
  | .draw x y rows =>
    { m with
      screen := (m.sprite x y rows).1
      registers := match (m.sprite x y rows).2 with
        | .ok collision => m.registers.set 0xF collision.toUInt8
        | .error _ => m.registers }

/-- Where an instruction sends the program counter, or why it cannot. -/
def destination : Instruction → Except Fault Address
  | .ret => m.stack.pop.map fun top => top.1.toUInt64
  | .jump a => .ok a.toUInt64
  | .call a => (m.stack.push (m.pc + 2)).map fun _ => a.toUInt64
  | .skip c x o =>
    .ok (m.pc.toUInt64 + if c.holds (m.registers.get x) (m.operandValue o) then 4 else 2)
  | .jumpOffset a => .ok (a.toUInt64 + (m.registers.get 0).toUInt64)
  | .draw x y rows => (m.sprite x y rows).2.map fun _ => m.pc.toUInt64 + 2
  | .clearScreen | .load _ _ | .add _ _ | .combine _ _ _ | .loadIndex _ | .random _ _ =>
    .ok (m.pc.toUInt64 + 2)

section Destination

variable {m} {i : Instruction} {a : Address} {f : Fault}

/-- An instruction leads to a stacked address, to one that it names, or to one just ahead. -/
theorem destination_cases (h : m.destination i = .ok a) :
    (i = .ret ∧ ∃ r ∈ m.stack.entries, a = r.toUInt64) ∨
    (∃ t, (i = .jump t ∨ i = .call t) ∧ a = t.toUInt64) ∨
    (∃ t, i = .jumpOffset t ∧ a = t.toUInt64 + (m.registers.get 0).toUInt64) ∨
    ∃ k, (k = 2 ∨ k = 4) ∧ a = m.pc.toUInt64 + UInt64.ofNat k := by
  cases i with
  | ret =>
    rw [destination, CallStack.pop] at h
    cases hs : m.stack.entries with
    | nil =>
      rw [hs] at h
      cases h
    | cons r rest =>
      rw [hs] at h
      obtain rfl := Except.ok.inj h
      exact Or.inl ⟨rfl, r, List.mem_cons_self, rfl⟩
  | jump t =>
    obtain rfl := Except.ok.inj h
    exact Or.inr (Or.inl ⟨t, Or.inl rfl, rfl⟩)
  | call t =>
    rw [destination] at h
    cases hp : m.stack.push (m.pc + 2) with
    | error f =>
      rw [hp] at h
      cases h
    | ok s =>
      rw [hp] at h
      obtain rfl := Except.ok.inj h
      exact Or.inr (Or.inl ⟨t, Or.inr rfl, rfl⟩)
  | jumpOffset t =>
    obtain rfl := Except.ok.inj h
    exact Or.inr (Or.inr (Or.inl ⟨t, rfl, rfl⟩))
  | skip c x o =>
    obtain rfl := Except.ok.inj h
    refine Or.inr (Or.inr (Or.inr ?_))
    split
    · exact ⟨4, by decide, rfl⟩
    · exact ⟨2, by decide, rfl⟩
  | draw x y rows =>
    rw [destination] at h
    cases hp : (m.sprite x y rows).2 with
    | error f =>
      rw [hp] at h
      cases h
    | ok collision =>
      rw [hp] at h
      obtain rfl := Except.ok.inj h
      exact Or.inr (Or.inr (Or.inr ⟨2, by decide, rfl⟩))
  | _ =>
    obtain rfl := Except.ok.inj h
    exact Or.inr (Or.inr (Or.inr ⟨2, by decide, rfl⟩))

theorem destination_error_cases (h : m.destination i = .error f) :
    (i = .ret ∧ m.stack.entries = [] ∧ f = .stackUnderflow) ∨
    ((∃ t, i = .call t) ∧ 16 ≤ m.stack.depth ∧ f = .stackOverflow) ∨
    ((∃ x y rows, i = .draw x y rows ∧
        4096 - m.index.toNat < Screen.visibleRows (m.registers.get y) rows) ∧
      f = .outOfBounds (.ofNat (max m.index.toNat 4096))) := by
  cases i with
  | ret =>
    rw [destination, CallStack.pop] at h
    cases hs : m.stack.entries with
    | nil =>
      rw [hs] at h
      obtain rfl := Except.error.inj h
      exact Or.inl ⟨rfl, rfl, rfl⟩
    | cons r rest =>
      rw [hs] at h
      cases h
  | call t =>
    rw [destination] at h
    cases hp : m.stack.push (m.pc + 2) with
    | error f' =>
      rw [hp] at h
      obtain rfl := Except.error.inj h
      exact Or.inr (Or.inl ⟨⟨t, rfl⟩, CallStack.push_eq_error_iff.mp hp⟩)
    | ok s =>
      rw [hp] at h
      cases h
  | draw x y rows =>
    have index : m.index.toUInt64.toNat = m.index.toNat := UInt16.toNat_toUInt64 _
    rw [destination, sprite] at h
    rcases Nat.lt_or_ge (4096 - m.index.toUInt64.toNat)
      (Screen.visibleRows (m.registers.get y) rows) with hr | hr
    · rw [Screen.snd_paint_eq_error _ _ _ _ _ _ hr] at h
      obtain rfl := Except.error.inj h
      rw [index] at hr ⊢
      exact Or.inr (Or.inr ⟨⟨x, y, rows, rfl, hr⟩, rfl⟩)
    · obtain ⟨c, hc, -⟩ := m.screen.snd_paint_eq_ok m.memory _ (m.registers.get x) _ _ hr
      rw [hc] at h
      cases h
  | _ => cases h

end Destination

theorem execute_draw_of_ok {x y rows : UInt8} {collision : Bool}
    (h : (m.sprite x y rows).2 = .ok collision) : m.execute (.draw x y rows) =
      { m with screen := (m.sprite x y rows).1 }.assign 0xF collision.toUInt8 := by
  rw [execute, ← sprite]
  generalize m.sprite x y rows = drawing at h
  cases drawing
  cases h
  rfl

theorem execute_draw_of_error {x y rows : UInt8} {f : Fault}
    (h : (m.sprite x y rows).2 = .error f) : m.execute (.draw x y rows) =
      ({ m with screen := (m.sprite x y rows).1 }, .error f) := by
  rw [execute, ← sprite]
  generalize m.sprite x y rows = drawing at h
  cases drawing
  cases h
  rfl

/-- Executing an instruction is its effect followed by the move to its destination. -/
theorem execute_eq (i : Instruction) : m.execute i =
    match m.destination i with
    | .ok a => (m.effect i).moveTo a
    | .error f => (m.effect i, .error f) := by
  cases i with
  | ret =>
    unfold execute destination effect popped
    cases m.stack.pop <;> rfl
  | call a =>
    unfold execute destination effect pushed
    cases m.stack.push (m.pc + 2) <;> rfl
  | draw x y rows =>
    rw [destination, effect]
    cases h : (m.sprite x y rows).2 with
    | ok collision => exact m.execute_draw_of_ok h
    | error f => exact m.execute_draw_of_error h
  | _ => rfl

@[simp] theorem pc_effect (i : Instruction) : (m.effect i).pc = m.pc := by cases i <;> rfl

@[simp] theorem memory_effect (i : Instruction) : (m.effect i).memory = m.memory := by
  cases i <;> rfl

@[simp] theorem halted_effect (i : Instruction) : (m.effect i).halted = m.halted := by
  cases i <;> rfl

/-- What a step is, told by how far it comes. -/
inductive Stepping (m : Machine) (c : Cycle) : Prop where
  | halted (hm : m.halted = true) (hc : c = ⟨m, .error .halted, []⟩)
  | unfetched (e : StepError) (hm : m.halted = false) (hf : m.fetch = .error e)
      (hc : c = ⟨{ m with halted := true }, .error e, []⟩)
  | stuck (i : Instruction) (f : Fault) (hm : m.halted = false) (hf : m.fetch = .ok i)
      (hd : m.destination i = .error f)
      (hc : c = ⟨{ m.effect i with halted := true }, .error (.fault f), [.executing m.pc i]⟩)
  | outside (i : Instruction) (a : Address) (hm : m.halted = false) (hf : m.fetch = .ok i)
      (hd : m.destination i = .ok a) (ha : 4096 ≤ a.toNat)
      (hc : c = ⟨{ m.effect i with halted := true }, .error (.fault (.outOfBounds a)),
        [.executing m.pc i]⟩)
  | moved (i : Instruction) (a : Address) (hm : m.halted = false) (hf : m.fetch = .ok i)
      (hd : m.destination i = .ok a) (ha : a.toNat < 4096)
      (hc : c = ⟨{ m.effect i with pc := a.toUInt16 }, .ok (), [.executing m.pc i]⟩)

theorem stepping : Stepping m m.step := by
  cases hm : m.halted with
  | true => exact .halted hm (by simp [step, hm])
  | false =>
    cases hf : m.fetch with
    | error e => exact .unfetched e hm hf (by simp [step, hm, hf])
    | ok i =>
      cases hd : m.destination i with
      | error f => exact .stuck i f hm hf hd (by simp [step, hm, hf, execute_eq, hd])
      | ok a =>
        by_cases ha : a.toNat < 4096
        · exact .moved i a hm hf hd ha (by simp [step, hm, hf, execute_eq, hd, moveTo, ha])
        · exact .outside i a hm hf hd (Nat.le_of_not_lt ha)
            (by simp [step, hm, hf, execute_eq, hd, moveTo, ha])

theorem moved_of_ok {m : Machine} (h : m.step.result = .ok ()) :
    ∃ i a, m.fetch = .ok i ∧ m.destination i = .ok a ∧ a.toNat < 4096 ∧
      m.step.machine = { m.effect i with pc := a.toUInt16 } := by
  cases m.stepping with
  | halted _ hc | unfetched _ _ _ hc | stuck _ _ _ _ _ hc | outside _ _ _ _ _ _ hc =>
    rw [hc] at h
    cases h
  | moved i a _ hf hd ha hc => exact ⟨i, a, hf, hd, ha, by rw [hc]⟩

theorem toNat_ofNat_max {n : Nat} (h : n < UInt64.size) :
    (UInt64.ofNat (max n 4096)).toNat = max n 4096 :=
  UInt64.toNat_ofNat_of_lt' (Nat.max_lt.mpr ⟨h, by decide⟩)

variable {m} in
theorem outOfBounds_of_fetch {a : Address} (h : m.fetch = .error (.fault (.outOfBounds a))) :
    a.toNat = max m.pc.toNat 4096 := by
  rw [fetch_eq] at h
  split at h
  · cases h
    rw [UInt16.toNat_toUInt64, Nat.max_eq_left ‹_›]
  · split at h
    · rename_i top
      cases h
      rw [top]
      rfl
    · split at h <;> cases h

variable {m} in
/-- A step that reports an address reports the first one missing from the program counter on or
from the index on, or the one that it was sent to. -/
theorem outOfBounds_of_step {a : Address} (h : m.step.result = .error (.fault (.outOfBounds a))) :
    a.toNat = max m.pc.toNat 4096 ∨ a.toNat = max m.index.toNat 4096 ∨
      4096 ≤ a.toNat ∧ ∃ i, m.fetch = .ok i ∧ m.destination i = .ok a := by
  cases m.stepping with
  | halted _ hc | moved _ _ _ _ _ _ hc =>
    rw [hc] at h
    cases h
  | unfetched e _ hf hc =>
    rw [hc] at h
    obtain rfl := Except.error.inj h
    exact Or.inl (outOfBounds_of_fetch hf)
  | stuck i f _ _ hd hc =>
    rw [hc] at h
    cases h
    rcases destination_error_cases hd with ⟨-, -, ⟨⟩⟩ | ⟨-, -, ⟨⟩⟩ | ⟨-, hb⟩
    rw [Fault.outOfBounds.inj hb]
    exact Or.inr (Or.inl (toNat_ofNat_max (Nat.lt_trans m.index.toNat_lt (by decide))))
  | outside i b _ hf hd high hc =>
    rw [hc] at h
    cases h
    exact Or.inr (Or.inr ⟨high, i, hf, hd⟩)

/-- The instruction that a step executes, if it comes to one. -/
def executing? : Option Instruction := if m.halted then none else m.fetch.toOption

theorem executing?_eq_some_iff {i : Instruction} :
    m.executing? = some i ↔ m.halted = false ∧ m.fetch = .ok i := by
  unfold executing?
  cases m.halted <;> cases m.fetch <;> simp [Except.toOption]

variable {m} in
/-- A step that executes an instruction leaves its effect, but for the program counter and the
flag. -/
theorem step_eq_effect {i : Instruction} (h : m.executing? = some i) :
    ∃ pc halted, m.step.machine = { m.effect i with pc, halted } := by
  obtain ⟨running, fetched⟩ := m.executing?_eq_some_iff.mp h
  cases m.stepping with
  | halted hm _ => cases hm.symm.trans running
  | unfetched _ _ hf _ => cases hf.symm.trans fetched
  | stuck j _ _ hf _ hc | outside j _ _ hf _ _ hc | moved j _ _ hf _ _ hc =>
    obtain rfl := Except.ok.inj (hf.symm.trans fetched)
    rw [hc]
    exact ⟨_, _, rfl⟩

variable {m} in
theorem step_eq_self (h : m.executing? = none) : ∃ halted, m.step.machine = { m with halted } := by
  cases m.stepping with
  | halted _ hc =>
    rw [hc]
    exact ⟨_, rfl⟩
  | unfetched _ _ _ hc =>
    rw [hc]
    exact ⟨_, rfl⟩
  | stuck _ _ hm hf _ _ | outside _ _ hm hf _ _ _ | moved _ _ hm hf _ _ _ =>
    cases h.symm.trans (m.executing?_eq_some_iff.mpr ⟨hm, hf⟩)

variable {m} in
/-- What holds of the machine and of the effect of the instruction that it may execute holds after
a step, if neither the program counter nor the flag matters. -/
theorem holds_step (P : Machine → Prop) (idle : ∀ halted, P { m with halted })
    (executed : ∀ i pc halted, P { m.effect i with pc, halted }) : P m.step.machine := by
  cases he : m.executing? with
  | none =>
    obtain ⟨halted, hs⟩ := step_eq_self he
    exact hs ▸ idle halted
  | some i =>
    obtain ⟨pc, halted, hs⟩ := step_eq_effect he
    exact hs ▸ executed i pc halted

theorem memory_step : m.step.machine.memory = m.memory :=
  holds_step (·.memory = m.memory) (fun _ => rfl) fun i _ _ => m.memory_effect i

theorem after_succ (n : Nat) : m.after (n + 1) = (m.after n).step.machine := by
  induction n generalizing m with
  | zero => rfl
  | succ n ih => exact ih m.step.machine

theorem memory_after (n : Nat) : (m.after n).memory = m.memory := by
  induction n with
  | zero => rfl
  | succ n ih => rw [after_succ, memory_step, ih]

theorem mem_steps_iff {c : Cycle} {n : Nat} : c ∈ m.steps n ↔ ∃ k < n, c = (m.after k).step := by
  induction n generalizing m with
  | zero => simp [steps]
  | succ n ih =>
    rw [steps, List.mem_cons, ih]
    constructor
    · rintro (rfl | ⟨k, hk, rfl⟩)
      · exact ⟨0, Nat.succ_pos n, rfl⟩
      · exact ⟨k + 1, Nat.succ_lt_succ hk, rfl⟩
    · rintro ⟨k, hk, rfl⟩
      cases k with
      | zero => exact Or.inl rfl
      | succ k => exact Or.inr ⟨k, Nat.lt_of_succ_lt_succ hk, rfl⟩

end Machine

end Chip8
