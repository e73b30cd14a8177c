import Chip8.Proofs.Machine.Halting

/-! # Machines that run alike

Two machines that differ in a part run alike as long as no instruction looks at it:
their steps give the same results and the same records, and the machines go on to
differ in that part only. The random source is looked at by random instructions, and
not even by these if they mask out all of the byte.
-/

namespace Chip8

namespace Machine

/-- A relation of machines that differ in parts which neither a halt nor a move looks at. -/
structure Veil (R : Machine → Machine → Prop) : Prop where
  halted {m m' : Machine} : R m m' → m'.halted = m.halted
  pc {m m' : Machine} : R m m' → m'.pc = m.pc
  halt {m m' : Machine} : R m m' → R { m with halted := true } { m' with halted := true }
  move {m m' : Machine} (a : Word) : R m m' → R { m with pc := a } { m' with pc := a }

/-- Two steps that give the same and leave related machines. -/
structure Cycle.Alike (R : Machine → Machine → Prop) (c c' : Cycle) : Prop where
  result : c'.result = c.result
  records : c'.records = c.records
  related : R c.machine c'.machine

section Related

variable {R : Machine → Machine → Prop} {m m' : Machine} {i : Instruction}

namespace Veil

theorem moveTo (veil : Veil R) (h : R m m') (a : Address) :
    (m'.moveTo a).2 = (m.moveTo a).2 ∧ R (m.moveTo a).1 (m'.moveTo a).1 := by
  unfold Machine.moveTo
  split
  · exact ⟨rfl, veil.move _ h⟩
  · exact ⟨rfl, h⟩

theorem execute (veil : Veil R) (destination : m'.destination i = m.destination i)
    (effect : R (m.effect i) (m'.effect i)) :
    (m'.execute i).2 = (m.execute i).2 ∧ R (m.execute i).1 (m'.execute i).1 := by
  rw [execute_eq, execute_eq, destination]
  cases m.destination i with
  | error f => exact ⟨rfl, effect⟩
  | ok a => exact veil.moveTo effect a

/-- Related machines step alike if they fetch the same, and if what they execute sends them to the
same place with related effects. -/
theorem step_alike (veil : Veil R) (h : R m m') (fetch : m.halted = false → m'.fetch = m.fetch)
    (obey : ∀ i, m.executing? = some i →
      m'.destination i = m.destination i ∧ R (m.effect i) (m'.effect i)) :
    Cycle.Alike R m.step m'.step := by
  rw [step, step, veil.halted h]
  cases hm : m.halted with
  | true => exact ⟨rfl, rfl, h⟩
  | false =>
    rw [fetch hm, if_neg Bool.false_ne_true, if_neg Bool.false_ne_true]
    cases hf : m.fetch with
    | error e => exact ⟨rfl, rfl, veil.halt h⟩
    | ok i =>
      obtain ⟨destination, effect⟩ := obey i (m.executing?_eq_some_iff.mpr ⟨hm, hf⟩)
      obtain ⟨result, related⟩ := veil.execute destination effect
      have records : [Record.executing m'.pc i] = [.executing m.pc i] := by rw [veil.pc h]
      dsimp only
      generalize m.execute i = o at result related ⊢
      generalize m'.execute i = o' at result related ⊢
      obtain ⟨s, r⟩ := o
      obtain ⟨s', r'⟩ := o'
      obtain rfl : r' = r := result
      cases r' with
      | ok => exact ⟨rfl, records, related⟩
      | error f => exact ⟨rfl, records, veil.halt related⟩

end Veil

theorem after_alike {n : Nat} (h : R m m')
    (alike : ∀ k < n, ∀ s, R (m.after k) s → Cycle.Alike R (m.after k).step s.step) :
    (∀ k < n, Cycle.Alike R (m.after k).step (m'.after k).step) ∧
      ∀ k ≤ n, R (m.after k) (m'.after k) := by
  have related : ∀ k ≤ n, R (m.after k) (m'.after k) := by
    intro k
    induction k with
    | zero => exact fun _ => h
    | succ k ih =>
      intro hk
      rw [after_succ, after_succ]
      exact (alike k hk _ (ih (Nat.le_of_succ_le hk))).related
  exact ⟨fun k hk => alike k hk _ (related k (Nat.le_of_lt hk)), related⟩

end Related

section Random

variable {m m' : Machine}

def SameButRandom (m m' : Machine) : Prop := ∃ r, m' = { m with random := r }

theorem veil_sameButRandom : Veil SameButRandom where
  halted := by
    rintro m _ ⟨r, rfl⟩
    rfl
  pc := by
    rintro m _ ⟨r, rfl⟩
    rfl
  halt := by
    rintro m _ ⟨r, rfl⟩
    exact ⟨r, rfl⟩
  move := by
    rintro a m _ ⟨r, rfl⟩
    exact ⟨r, rfl⟩

theorem destination_withRandom (m : Machine) (r : RandomSource) (i : Instruction) :
    { m with random := r }.destination i = m.destination i := by
  cases i <;> rfl

theorem effect_sameButRandom (m : Machine) (r : RandomSource) {i : Instruction}
    (masked : ∀ x mask, i = .random x mask → mask = 0) :
    SameButRandom (m.effect i) ({ m with random := r }.effect i) := by
  cases i with
  | random x mask =>
    obtain rfl := masked x mask rfl
    refine ⟨r.draw.2, ?_⟩
    simp only [effect, UInt8.zero_and]
  | _ => exact ⟨r, rfl⟩

theorem SameButRandom.step_alike (h : SameButRandom m m')
    (masked : ∀ x mask, m.executing? = some (.random x mask) → mask = 0) :
    Cycle.Alike SameButRandom m.step m'.step := by
  obtain ⟨r, rfl⟩ := h
  refine veil_sameButRandom.step_alike ⟨r, rfl⟩ (fun _ => rfl) ?_
  intro i he
  refine ⟨m.destination_withRandom r i, m.effect_sameButRandom r ?_⟩
  rintro x mask rfl
  exact masked x mask he

/-- Machines that are equal but for their random sources run alike as long as the random
instructions that they execute mask out all of the byte. -/
theorem random_unseen (same : SameButRandom m m') {n : Nat}
    (masked : ∀ k < n, ∀ x mask, (m.after k).executing? = some (.random x mask) → mask = 0) :
    (∀ k < n, (m'.after k).step.result = (m.after k).step.result ∧
      (m'.after k).step.records = (m.after k).step.records) ∧
    ∀ k ≤ n, SameButRandom (m.after k) (m'.after k) := by
  obtain ⟨alike, related⟩ :=
    after_alike same fun k hk s (h : SameButRandom _ s) => h.step_alike (masked k hk)
  exact ⟨fun k hk => ⟨(alike k hk).result, (alike k hk).records⟩, related⟩

/-- A machine about to execute two random instructions that mask out all of the byte. -/
def maskedDraws : Machine :=
  (fresh ⟨.replicate 8 0, 0⟩).leftBy [.writeWord 0x200 0xC000, .writeWord 0x202 0xC100]

def reseededDraws : Machine := { maskedDraws with random := ⟨.replicate 8 1, 5⟩ }

theorem random_unseen_maskedDraws :
    (maskedDraws.executing? = some (.random 0 0) ∧
      (maskedDraws.after 1).executing? = some (.random 1 0) ∧
      (maskedDraws.after 2).executing? = none) ∧
    (∀ k < 3, (reseededDraws.after k).step.result = (maskedDraws.after k).step.result ∧
      (reseededDraws.after k).step.records = (maskedDraws.after k).step.records) ∧
    ∀ k ≤ 3, SameButRandom (maskedDraws.after k) (reseededDraws.after k) := by
  have first : maskedDraws.executing? = some (.random 0 0) := by decide +kernel
  have second : (maskedDraws.after 1).executing? = some (.random 1 0) := by decide +kernel
  have third : (maskedDraws.after 2).executing? = none := by decide +kernel
  refine ⟨⟨first, second, third⟩, random_unseen ⟨_, rfl⟩ ?_⟩
  rintro (_ | _ | _ | k) hk x mask h
  · cases first.symm.trans h
    rfl
  · cases second.symm.trans h
    rfl
  · cases third.symm.trans h
  · omega

end Random

end Machine

end Chip8
