import Chip8.Proofs.Instruction.Format
import Chip8.Proofs.Machine.Effect
import Chip8.Proofs.Plain.Basic

/-! # Steps in plain numbers

A machine's step and the step of its plain numbers commute: executing the decoded
instruction does to the state what obeying the word's digits does to the numbers,
with the same result.
-/

namespace Chip8

namespace Machine

variable (m : Machine)

/-- The end of a step in plain numbers: a failure halts the machine. -/
def Outcome.settled (o : Outcome) : PlainMachine.Result :=
  match o.2 with
  | .ok () => (o.1.plain, .ok ())
  | .error f => o.1.plain.halt (.fault f)

theorem settled_moveTo (a : Address) : (m.moveTo a).settled = m.plain.goTo a.toNat := by
  unfold moveTo PlainMachine.goTo
  by_cases h : a.toNat < 4096
  · have pc : a.toUInt16.toNat = a.toNat := by
      rw [UInt64.toNat_toUInt16]
      omega
    rw [if_pos h, if_pos h, ← pc]
    rfl
  · rw [if_neg h, if_neg h, PlainMachine.outOfBounds, UInt64.ofNat_toNat]
    rfl

theorem settled_advance (skip : Bool) :
    (m.advance skip).settled = m.plain.skipIf (skip = true) := by
  rw [advance, settled_moveTo, PlainMachine.skipIf]
  cases skip with
  | true => exact congrArg _ (m.toNat_pc_add (k := 4) (by decide))
  | false => exact congrArg _ (m.toNat_pc_add (k := 2) (by decide))

theorem settled_next : (m.advance false).settled = m.plain.goTo (m.plain.pc + 2) := by
  rw [settled_advance]
  rfl

theorem slot_ofNat {x : Nat} (hx : x < 16) : Registers.slot (.ofNat x) = ⟨x, hx⟩ := by
  apply Fin.ext
  change (UInt8.ofNat x).toNat % 16 = x
  rw [UInt8.toNat_ofNat']
  omega

theorem toNat_get {x : Nat} (hx : x < 16) :
    (m.registers.get (.ofNat x)).toNat = m.plain.register x := by
  simp [Registers.get, slot_ofNat hx, plain, hx]

theorem plain_set {x : Nat} (hx : x < 16) (v : UInt8) :
    { m with registers := m.registers.set (.ofNat x) v }.plain = m.plain.assign x v.toNat := by
  have register : (fun i => ((m.registers.set (.ofNat x) v).values[i]?.getD 0).toNat) =
      fun i => if i = x then v.toNat else (m.registers.values[i]?.getD 0).toNat := by
    funext i
    simp only [Registers.set, slot_ofNat hx, Vector.getElem?_set]
    by_cases h : i = x
    · simp [h]
    · simp [h, Ne.symm h]
  rw [PlainMachine.assign, plain, register]
  rfl

theorem settled_assign {x k : Nat} {v : UInt8} (hx : x < 16) (hv : v.toNat = k) :
    (m.assign (.ofNat x) v).settled = (m.plain.assign x k).goTo (m.plain.pc + 2) := by
  rw [assign, settled_next, plain_set m hx, hv]
  rfl

theorem plain_spriteBit (x y px py : Nat) : m.plain.spriteBit x y px py =
    Screen.spriteBitAt m.memory x y m.index.toUInt64 px py := by
  rw [Screen.spriteBitAt, Nat.testBit_eq_decide_div_mod_eq, UInt16.toNat_toUInt64]
  rfl

theorem plain_paint (x y rows : UInt8) :
    { m with screen := (m.screen.paint m.memory x y m.index.toUInt64 rows).1 }.plain =
      { m.plain with
        pixel := fun px py =>
          if Screen.Covers x.toNat y.toNat (Screen.readableRows y m.index.toUInt64 rows) px py then
            m.plain.spriteBit x.toNat y.toNat px py
          else m.plain.pixel px py } := by
  have pixel : (m.screen.paint m.memory x y m.index.toUInt64 rows).1.pixel = fun px py =>
      if Screen.Covers x.toNat y.toNat (Screen.readableRows y m.index.toUInt64 rows) px py then
        m.plain.spriteBit x.toNat y.toNat px py
      else m.plain.pixel px py := by
    funext px py
    rw [Screen.pixel_paint, plain_spriteBit]
    rfl
  rw [← pixel]
  rfl

theorem toNat_toUInt8 {c : Bool} {p : Prop} [Decidable p] (h : c = true ↔ p) :
    c.toUInt8.toNat = if p then 1 else 0 := by
  cases c with
  | true => rw [if_pos (h.mp rfl)]; rfl
  | false => rw [if_neg fun hp => Bool.false_ne_true (h.mpr hp)]; rfl

theorem settled_draw {x y n : Nat} (hx : x < 16) (hy : y < 16) (hn : n < 16) :
    (m.execute (.draw (.ofNat x) (.ofNat y) (.ofNat n))).settled =
      m.plain.draw (m.plain.register x) (m.plain.register y) n := by
  have index : m.index.toUInt64.toNat = m.plain.index := UInt16.toNat_toUInt64 _
  have visible : Screen.visibleRows (m.registers.get (.ofNat y)) (.ofNat n) =
      min n (32 - m.plain.register y) := by
    rw [Screen.visibleRows, toNat_get m hy, UInt8.toNat_ofNat']
    omega
  have readable : Screen.readableRows (m.registers.get (.ofNat y)) m.index.toUInt64 (.ofNat n) =
      min (min n (32 - m.plain.register y)) (4096 - m.plain.index) := by
    rw [Screen.readableRows_eq_min, visible, index]
  have drawn := m.plain_paint (m.registers.get (.ofNat x)) (m.registers.get (.ofNat y)) (.ofNat n)
  rw [toNat_get m hx, toNat_get m hy, readable] at drawn
  rw [PlainMachine.draw]
  by_cases h : min n (32 - m.plain.register y) ≤ 4096 - m.plain.index
  · obtain ⟨c, hc, hcol⟩ := m.screen.snd_paint_eq_ok m.memory m.index.toUInt64
      (m.registers.get (.ofNat x)) (m.registers.get (.ofNat y)) (.ofNat n)
      (by rwa [visible, index])
    have collision : c = true ↔ ∃ px < 64, ∃ py < 32,
        Screen.Covers (m.plain.register x) (m.plain.register y)
          (min (min n (32 - m.plain.register y)) (4096 - m.plain.index)) px py ∧
        m.plain.pixel px py = true ∧
        m.plain.spriteBit (m.plain.register x) (m.plain.register y) px py = true := by
      rw [hcol, toNat_get m hx, toNat_get m hy, readable]
      simp only [plain_spriteBit]
      constructor
      · rintro ⟨px, py, hc, hs, hb⟩
        exact ⟨px, hc.1.2.2, py, hc.2.2.2, hc, hs, hb⟩
      · rintro ⟨px, -, py, -, hc, hs, hb⟩
        exact ⟨px, py, hc, hs, hb⟩
    rw [if_neg (by omega), m.execute_draw_of_ok hc, ← toNat_toUInt8 collision, ← drawn]
    exact settled_assign _ (by decide : 15 < 16) rfl
  · have hf := m.screen.snd_paint_eq_error m.memory m.index.toUInt64
      (m.registers.get (.ofNat x)) (m.registers.get (.ofNat y)) (.ofNat n)
      (by rw [visible, index]; omega)
    rw [if_pos (by omega), m.execute_draw_of_error hf, ← drawn, index]
    rfl

theorem settled_clear : (m.execute .clearScreen).settled =
    { m.plain with pixel := fun _ _ => false }.goTo (m.plain.pc + 2) := by
  have pixel : Screen.blank.pixel = fun _ _ => false := by
    funext x y
    exact Screen.pixel_blank x y
  rw [execute, settled_next, ← pixel]
  rfl

theorem settled_ret : (m.execute .ret).settled =
    match m.plain.stack with
    | [] => m.plain.halt (.fault .stackUnderflow)
    | r :: rest => { m.plain with stack := rest }.goTo r := by
  have stack : m.plain.stack = m.stack.entries.map UInt16.toNat := rfl
  rw [execute, CallStack.pop, stack]
  cases m.stack.entries with
  | nil => rfl
  | cons r rest => exact settled_moveTo _ _

theorem settled_jump {a : Nat} (ha : a < 4096) :
    (m.execute (.jump (.ofNat a))).settled = ({ m.plain with pc := a }, .ok ()) := by
  have target : (UInt16.ofNat a).toUInt64.toNat = a := by
    rw [UInt16.toNat_toUInt64, UInt16.toNat_ofNat']
    omega
  rw [execute, settled_moveTo, target, PlainMachine.goTo, if_pos ha]

theorem settled_call {a : Nat} (ha : a < 4096) (hp : m.pc.toNat < 4095) :
    (m.execute (.call (.ofNat a))).settled =
      if 16 ≤ m.plain.stack.length then m.plain.halt (.fault .stackOverflow)
      else ({ m.plain with stack := (m.plain.pc + 2) :: m.plain.stack, pc := a }, .ok ()) := by
  have depth : m.plain.stack.length = m.stack.depth := List.length_map _
  have back : (m.pc + 2).toNat = m.plain.pc + 2 := m.toNat_next hp
  rw [execute, CallStack.push, depth]
  by_cases h : m.stack.depth < 16
  · rw [if_pos h, if_neg (by omega), ← back]
    exact settled_jump { m with stack := ⟨(m.pc + 2) :: m.stack.entries⟩ } ha
  · rw [if_neg h, if_pos (by omega)]
    rfl

theorem settled_loadIndex {a : Nat} (ha : a < 4096) : (m.execute (.loadIndex (.ofNat a))).settled =
    { m.plain with index := a }.goTo (m.plain.pc + 2) := by
  have index : (UInt16.ofNat a).toNat = a := by
    rw [UInt16.toNat_ofNat']
    omega
  rw [execute, settled_next, ← index]
  simp only [UInt16.ofNat_toNat]
  rfl

theorem settled_jumpOffset {a : Nat} (ha : a < 4096) :
    (m.execute (.jumpOffset (.ofNat a))).settled = m.plain.goTo (a + m.plain.register 0) := by
  have offset : (m.registers.get 0).toNat = m.plain.register 0 := m.toNat_get (by decide : 0 < 16)
  have target :
      ((UInt16.ofNat a).toUInt64 + (m.registers.get 0).toUInt64).toNat =
        a + m.plain.register 0 := by
    have := (m.registers.get 0).toNat_lt
    rw [UInt64.toNat_add, UInt16.toNat_toUInt64, UInt8.toNat_toUInt64, UInt16.toNat_ofNat',
      ← offset]
    omega
  rw [execute, settled_moveTo, target]

theorem skipIf_congr (s : PlainMachine) {c d : Prop} [Decidable c] [Decidable d] (h : c ↔ d) :
    s.skipIf c = s.skipIf d := by
  unfold PlainMachine.skipIf
  congr 1
  exact if_congr h rfl rfl

theorem settled_skip_equal {x k : Nat} {o : Operand} (hx : x < 16)
    (ho : (m.operandValue o).toNat = k) :
    (m.execute (.skip .equal (.ofNat x) o)).settled =
      m.plain.skipIf (m.plain.register x = k) := by
  refine (m.settled_advance _).trans (skipIf_congr _ ?_)
  rw [Comparison.holds, beq_iff_eq, ← UInt8.toNat_inj, toNat_get m hx, ho]

theorem settled_skip_notEqual {x k : Nat} {o : Operand} (hx : x < 16)
    (ho : (m.operandValue o).toNat = k) :
    (m.execute (.skip .notEqual (.ofNat x) o)).settled =
      m.plain.skipIf (m.plain.register x ≠ k) := by
  refine (m.settled_advance _).trans (skipIf_congr _ ?_)
  rw [Comparison.holds, bne_iff_ne, ne_eq, ne_eq, ← UInt8.toNat_inj, toNat_get m hx, ho]

/-- Obeying a word is executing the instruction that it stands for. -/
theorem obey_eq (hp : m.pc.toNat < 4095) (w : Word) : m.plain.obey w.toNat =
    match Instruction.ofNumber w.toNat with
    | some i => (m.execute i).settled
    | none => m.plain.halt (.unknownInstruction w m.pc) := by
  have unknown : m.plain.halt (.unknownInstruction (.ofNat w.toNat) (.ofNat m.plain.pc)) =
      m.plain.halt (.unknownInstruction w m.pc) := by
    rw [UInt16.ofNat_toNat]
    exact congrArg _ (congrArg _ (UInt16.ofNat_toNat))
  have hx : w.toNat / 256 % 16 < 16 := Nat.mod_lt _ (by decide)
  have hy : w.toNat / 16 % 16 < 16 := Nat.mod_lt _ (by decide)
  have hn : w.toNat % 16 < 16 := Nat.mod_lt _ (by decide)
  have hk : (UInt8.ofNat (w.toNat % 256)).toNat = w.toNat % 256 := by
    rw [UInt8.toNat_ofNat', Nat.mod_mod]
  have ha : w.toNat % 4096 < 4096 := Nat.mod_lt _ (by decide)
  have hw := w.toNat_lt
  have hd : w.toNat / 4096 < 16 := by omega
  unfold PlainMachine.obey Instruction.ofNumber
  simp only [unknown]
  generalize w.toNat / 4096 = d at hd
  interval_cases d
  case «0» =>
    by_cases h : w.toNat = 0xE0
    · rw [if_pos h, if_pos h]
      exact m.settled_clear.symm
    · rw [if_neg h, if_neg h]
      by_cases h' : w.toNat = 0xEE
      · rw [if_pos h', if_pos h']
        exact m.settled_ret.symm
      · rw [if_neg h', if_neg h']
        rfl
  case «1» => exact (m.settled_jump ha).symm
  case «2» => exact (m.settled_call ha hp).symm
  case «3» => exact (m.settled_skip_equal (o := .byte _) hx hk).symm
  case «4» => exact (m.settled_skip_notEqual (o := .byte _) hx hk).symm
  case «5» => exact (m.settled_skip_equal (o := .register _) hx (m.toNat_get hy)).symm
  case «6» => exact (m.settled_assign hx hk).symm
  case «7» =>
    refine (m.settled_assign hx ?_).symm
    rw [UInt8.toNat_add, toNat_get m hx, hk]
  case «8» =>
    generalize w.toNat % 16 = n at hn
    interval_cases n
    case «0» => exact (m.settled_assign hx (m.toNat_get hy)).symm
    case «1» =>
      refine (m.settled_assign hx ?_).symm
      rw [Combination.apply, UInt8.toNat_or, toNat_get m hx, toNat_get m hy]
    case «2» =>
      refine (m.settled_assign hx ?_).symm
      rw [Combination.apply, UInt8.toNat_and, toNat_get m hx, toNat_get m hy]
    case «3» =>
      refine (m.settled_assign hx ?_).symm
      rw [Combination.apply, UInt8.toNat_xor, toNat_get m hx, toNat_get m hy]
    all_goals rfl
  case «9» => exact (m.settled_skip_notEqual (o := .register _) hx (m.toNat_get hy)).symm
  case «10» => exact (m.settled_loadIndex ha).symm
  case «11» => exact (m.settled_jumpOffset ha).symm
  case «12» =>
    refine (settled_assign { m with random := m.random.draw.2 } hx ?_).symm
    rw [UInt8.toNat_and, hk]
    rfl
  case «13» => exact (m.settled_draw hx hy hn).symm
  case «14» | «15» => rfl

theorem step_eq_of_fetch {e : StepError} (hm : m.halted = false) (hf : m.fetch = .error e) :
    m.plain.halt e = (m.step.machine.plain, m.step.result) := by
  simp only [step, hm, hf]
  rfl

theorem step_eq_settled {i : Instruction} (hm : m.halted = false) (hf : m.fetch = .ok i) :
    (m.execute i).settled = (m.step.machine.plain, m.step.result) := by
  simp only [step, hm, hf]
  obtain ⟨next, result⟩ := m.execute i
  cases result <;> rfl

/-- A step does to a machine what the plain step does to its numbers, with the same result. -/
theorem plain_step : m.plain.step = (m.step.machine.plain, m.step.result) := by
  have word : m.word.toNat = 256 * m.plain.byte m.plain.pc + m.plain.byte (m.plain.pc + 1) :=
    Word.toNat_ofBytes _ _
  have pc : m.plain.pc = m.pc.toNat := rfl
  have halted : m.plain.halted = m.halted := rfl
  rw [PlainMachine.step, ← word, pc, halted]
  cases hm : m.halted with
  | true =>
    rw [if_pos rfl, step, if_pos hm]
  | false =>
    rw [if_neg Bool.false_ne_true]
    have hf := m.fetch_eq
    by_cases high : 4096 ≤ m.pc.toNat
    · rw [if_pos high] at hf ⊢
      rw [← m.step_eq_of_fetch hm hf, PlainMachine.outOfBounds, ← UInt16.toNat_toUInt64,
        UInt64.ofNat_toNat]
    · rw [if_neg high] at hf ⊢
      by_cases top : m.pc.toNat = 4095
      · rw [if_pos top] at hf ⊢
        exact m.step_eq_of_fetch hm hf
      · rw [if_neg top] at hf ⊢
        rw [m.obey_eq (by omega), ← Instruction.decode_eq_ofNumber]
        cases hd : Instruction.decode m.word with
        | none =>
          rw [hd] at hf
          exact m.step_eq_of_fetch hm hf
        | some i =>
          rw [hd] at hf
          exact m.step_eq_settled hm hf

/-- What a step leaves and answers is determined by the plain step. -/
theorem step_eq_iff_plain (next : Machine) (r : Except StepError Unit) :
    m.step.machine = next ∧ m.step.result = r ↔ m.plain.step = (next.plain, r) := by
  rw [plain_step]
  constructor
  · rintro ⟨rfl, rfl⟩
    rfl
  · intro h
    obtain ⟨hn, hr⟩ := Prod.mk.inj h
    exact ⟨plain_injective hn, hr⟩

end Machine

end Chip8
