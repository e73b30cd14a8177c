import Chip8.Machine.Operation
import Chip8.Proofs.Machine.Effect

/-! # Halting

Only a step that fails halts a machine, and no operation sets a halted machine
going again. The steps of a session therefore succeed up to the first that fails,
and all later ones are refused.
-/

namespace Chip8

namespace Operation

def isStep : Operation → Bool
  | step => true
  | _ => false

theorem direct_or_step (o : Operation) : o.isStep = false ∨ o = step := by
  cases o with
  | step => exact Or.inr rfl
  | _ => exact Or.inl rfl

end Operation

namespace Machine

variable {m : Machine} {o : Operation}

/-- The machine that a session leaves. -/
def leftBy (m : Machine) (os : List Operation) : Machine :=
  os.foldl (fun m o => (m.perform o).machine) m

theorem leftBy_cons (os : List Operation) :
    m.leftBy (o :: os) = (m.perform o).machine.leftBy os := rfl

/-- What every operation of a session keeps, the session keeps. -/
theorem leftBy_induction {P : Machine → Prop} {os : List Operation} (start : P m)
    (keep : ∀ m, ∀ o ∈ os, P m → P (m.perform o).machine) : P (m.leftBy os) := by
  induction os generalizing m with
  | nil => exact start
  | cons o os ih =>
    exact ih (keep m o List.mem_cons_self start) fun m o ho => keep m o (List.mem_cons_of_mem _ ho)

def stepResults (m : Machine) (os : List Operation) : List (Except StepError Answer) :=
  ((os.zip (m.performAll os)).filter fun p => p.1.isStep).map fun p => p.2.result

/-- Successes, then perhaps a failure with nothing but refusals after it. -/
def HaltsOnce (rs : List (Except StepError Answer)) : Prop :=
  ∃ n, rs = List.replicate n (.ok .done) ∨
    ∃ e k, e ≠ StepError.halted ∧
      rs = List.replicate n (.ok .done) ++ .error e :: List.replicate k (.error .halted)

theorem stepResults_step (os : List Operation) :
    m.stepResults (.step :: os) =
      (m.perform .step).result :: (m.perform .step).machine.stepResults os := rfl

theorem stepResults_direct (h : o.isStep = false) (os : List Operation) :
    m.stepResults (o :: os) = (m.perform o).machine.stepResults os := by
  unfold stepResults
  rw [performAll, List.zip_cons_cons, List.filter_cons_of_neg]
  exact ne_true_of_eq_false h

section Holds

variable {α : Type} (P : Machine → Prop)

theorem holds_update {change : α → Machine × Answer} {r : Except Fault α} (failed : P m)
    (changed : ∀ a, r = .ok a → P (change a).1) : P (Performed.update m change r).machine := by
  cases r with
  | error f => exact failed
  | ok a => exact changed a rfl

theorem holds_moveTo {a : Address} (failed : P m)
    (moved : a.toNat < 4096 → P { m with pc := a.toUInt16 }) : P (m.moveTo a).1 := by
  unfold moveTo
  split
  · exact moved ‹_›
  · exact failed

end Holds

theorem perform_direct (h : o.isStep = false) :
    (m.perform o).machine.halted = m.halted ∧ (m.perform o).machine.random = m.random := by
  let kept (s : Machine) : Prop := s.halted = m.halted ∧ s.random = m.random
  cases o with
  | step => cases h
  | write | writeWord | push | pop => exact holds_update kept ⟨rfl, rfl⟩ fun _ _ => ⟨rfl, rfl⟩
  | moveTo | advance => exact holds_moveTo kept ⟨rfl, rfl⟩ fun _ => ⟨rfl, rfl⟩
  | reset part => cases part <;> exact ⟨rfl, rfl⟩
  | _ => exact ⟨rfl, rfl⟩

theorem halted_perform_direct (h : o.isStep = false) :
    (m.perform o).machine.halted = m.halted := (perform_direct h).1

theorem perform_step_of_halted (h : m.halted = true) :
    m.perform .step = ⟨m, .error .halted, []⟩ := by
  rw [perform, step, if_pos h]
  rfl

theorem fetch_ne_halted : m.fetch ≠ .error .halted := by
  rw [fetch_eq]
  intro h
  split at h
  · cases h
  · split at h
    · cases h
    · split at h <;> cases h

/-- A step of a running machine succeeds and leaves it running, or fails and halts it. -/
theorem perform_step_of_running (h : m.halted = false) :
    (m.perform .step).result = .ok .done ∧ (m.perform .step).machine.halted = false ∨
      ∃ e, e ≠ StepError.halted ∧ (m.perform .step).result = .error e ∧
        (m.perform .step).machine.halted = true := by
  rw [perform]
  cases m.stepping with
  | halted hm _ => cases h.symm.trans hm
  | unfetched e _ hf hc =>
    rw [hc]
    refine Or.inr ⟨e, ?_, rfl, rfl⟩
    rintro rfl
    exact fetch_ne_halted hf
  | stuck i f _ _ _ hc =>
    rw [hc]
    exact Or.inr ⟨.fault f, nofun, rfl, rfl⟩
  | outside i a _ _ _ _ hc =>
    rw [hc]
    exact Or.inr ⟨.fault (.outOfBounds a), nofun, rfl, rfl⟩
  | moved i a _ _ _ _ hc =>
    rw [hc]
    exact Or.inl ⟨rfl, (m.halted_effect i).trans h⟩

theorem halted_perform_iff : (m.perform o).machine.halted = true ↔
    m.halted = true ∨ o = .step ∧ ∃ e, (m.perform o).result = .error e := by
  rcases o.direct_or_step with direct | rfl
  · rw [halted_perform_direct direct]
    constructor
    · exact Or.inl
    · rintro (h | ⟨rfl, -⟩)
      · exact h
      · cases direct
  · cases hm : m.halted with
    | true =>
      rw [perform_step_of_halted hm]
      exact ⟨fun _ => Or.inl rfl, fun _ => hm⟩
    | false =>
      rcases perform_step_of_running hm with ⟨hr, hh⟩ | ⟨e, -, hr, hh⟩
      · rw [hr, hh]
        constructor
        · rintro ⟨⟩
        · rintro (⟨⟨⟩⟩ | ⟨-, e, ⟨⟩⟩)
      · rw [hr, hh]
        exact ⟨fun _ => Or.inr ⟨rfl, e, rfl⟩, fun _ => rfl⟩

theorem stepResults_of_halted (h : m.halted = true) (os : List Operation) :
    ∃ k, m.stepResults os = List.replicate k (.error .halted) := by
  induction os generalizing m with
  | nil => exact ⟨0, rfl⟩
  | cons o os ih =>
    rcases o.direct_or_step with direct | rfl
    · rw [stepResults_direct direct]
      exact ih ((halted_perform_direct direct).trans h)
    · rw [stepResults_step, perform_step_of_halted h]
      obtain ⟨k, hk⟩ := ih h
      exact ⟨k + 1, by rw [hk, List.replicate_succ]⟩

theorem haltsOnce_stepResults (h : m.halted = false) (os : List Operation) :
    HaltsOnce (m.stepResults os) := by
  induction os generalizing m with
  | nil => exact ⟨0, Or.inl rfl⟩
  | cons o os ih =>
    rcases o.direct_or_step with direct | rfl
    · rw [stepResults_direct direct]
      exact ih ((halted_perform_direct direct).trans h)
    · rw [stepResults_step]
      rcases perform_step_of_running h with ⟨hr, hh⟩ | ⟨e, he, hr, hh⟩
      · rw [hr]
        obtain ⟨n, hn | ⟨e, k, he, hn⟩⟩ := ih hh
        · exact ⟨n + 1, Or.inl (by rw [hn, List.replicate_succ])⟩
        · exact ⟨n + 1, Or.inr ⟨e, k, he, by rw [hn, List.replicate_succ, List.cons_append]⟩⟩
      · rw [hr]
        obtain ⟨k, hk⟩ := stepResults_of_halted hh os
        exact ⟨0, Or.inr ⟨e, k, he, by rw [hk, List.replicate_zero, List.nil_append]⟩⟩

theorem halted_leftBy_iff (os : List Operation) : (m.leftBy os).halted = true ↔
    m.halted = true ∨ ∃ e, .error e ∈ m.stepResults os := by
  induction os generalizing m with
  | nil =>
    constructor
    · exact Or.inl
    · rintro (h | ⟨e, ⟨⟩⟩)
      exact h
  | cons o os ih =>
    rw [leftBy_cons, ih]
    rcases o.direct_or_step with direct | rfl
    · rw [halted_perform_direct direct, stepResults_direct direct]
    · rw [halted_perform_iff, stepResults_step, or_assoc]
      simp only [true_and, List.mem_cons, exists_or, eq_comm]

/-- The steps of a session fail once: from then on, and not before, the machine is halted and
refuses every step without doing anything. -/
theorem session_haltsOnce (seed : UInt64) (os : List Operation) :
    HaltsOnce ((ofSeed seed).stepResults os) ∧
      (((ofSeed seed).leftBy os).halted = true ↔
        ∃ e, .error e ∈ (ofSeed seed).stepResults os) ∧
      (∀ o, (((ofSeed seed).leftBy os).perform o).machine.halted = true ↔
        ((ofSeed seed).leftBy os).halted = true ∨
          o = .step ∧ ∃ e, (((ofSeed seed).leftBy os).perform o).result = .error e) ∧
      ((((ofSeed seed).leftBy os).perform .step).result = .error .halted →
        (((ofSeed seed).leftBy os).perform .step).machine = (ofSeed seed).leftBy os ∧
          (((ofSeed seed).leftBy os).perform .step).records = []) := by
  have running : (ofSeed seed).halted = false := rfl
  refine ⟨haltsOnce_stepResults running os, ?_, fun o => halted_perform_iff, ?_⟩
  · rw [halted_leftBy_iff, running]
    exact or_iff_right Bool.false_ne_true
  · intro refused
    generalize (ofSeed seed).leftBy os = m at refused ⊢
    cases hm : m.halted with
    | true =>
      rw [perform_step_of_halted hm]
      exact ⟨rfl, rfl⟩
    | false =>
      rcases perform_step_of_running hm with ⟨hr, -⟩ | ⟨e, he, hr, -⟩
      · cases hr.symm.trans refused
      · exact absurd (Except.error.inj (hr.symm.trans refused)) he

end Machine

end Chip8
