import Chip8.Proofs.Machine.Confinement
import Chip8.Proofs.Machine.Faults

/-! # Sessions keep to the bounds

Whatever a machine is asked to do, its call stack never holds more than sixteen
entries, and its program counter stays in memory unless it is set without a check.
The addresses that are reported lie above memory, and an operation that fails as a
whole changes nothing.
-/

namespace Chip8

namespace Operation

def isSetPc : Operation → Bool
  | setPc _ => true
  | _ => false

/-- The operations that send the program counter to an address, which has to be in memory. -/
def movesPc : Operation → Bool
  | moveTo _ | advance _ | step => true
  | _ => false

end Operation

namespace Machine

variable {m : Machine} {o : Operation} {a : Address}

section Stack

theorem depth_step_le (h : m.stack.depth ≤ 16) : m.step.machine.stack.depth ≤ 16 :=
  holds_step (·.stack.depth ≤ 16) (fun _ => h) fun _ _ _ => depth_effect_le h

theorem depth_perform_le (h : m.stack.depth ≤ 16) :
    (m.perform o).machine.stack.depth ≤ 16 := by
  let bounded (s : Machine) : Prop := s.stack.depth ≤ 16
  cases o with
  | step => exact depth_step_le h
  | push r =>
    apply holds_update bounded h
    intro s pushed
    obtain ⟨low, rfl⟩ := CallStack.push_eq_ok_iff.mp pushed
    exact low
  | pop =>
    apply holds_update bounded h
    rintro ⟨r, s⟩ popped
    have taken := congrArg List.length (CallStack.pop_eq_ok_iff.mp popped)
    unfold CallStack.depth at h
    simp only [bounded, CallStack.depth, List.length_cons] at taken ⊢
    omega
  | write | writeWord => exact holds_update bounded h fun _ _ => h
  | moveTo | advance => exact holds_moveTo bounded h fun _ => h
  | reset part =>
    cases part with
    | memory | stack => exact Nat.zero_le 16
    | _ => exact h
  | _ => exact h

end Stack

section ProgramCounter

def Inside (m : Machine) : Prop := m.pc.toNat ≤ 4095

theorem inside_of_lt (low : a.toNat < 4096) : Inside { m with pc := a.toUInt16 } := by
  change a.toUInt16.toNat ≤ 4095
  rw [UInt64.toNat_toUInt16]
  omega

theorem inside_moveTo_of_ok (h : (m.moveTo a).2 = .ok ()) : Inside (m.moveTo a).1 := by
  unfold moveTo at h ⊢
  split
  · exact inside_of_lt ‹_›
  · rename_i high
    rw [if_neg high] at h
    cases h

theorem inside_step_of_ok (h : m.step.result = .ok ()) : Inside m.step.machine := by
  obtain ⟨i, a, -, -, low, hs⟩ := moved_of_ok h
  rw [hs]
  exact inside_of_lt low

theorem inside_step (h : Inside m) : Inside m.step.machine := by
  cases m.stepping with
  | halted _ hc | unfetched _ _ _ hc =>
    rw [hc]
    exact h
  | stuck i _ _ _ _ hc | outside i _ _ _ _ _ hc =>
    simpa [hc, Inside] using h
  | moved i a _ _ _ low hc =>
    rw [hc]
    exact inside_of_lt low

theorem inside_perform_of_ok {r : Answer} (moves : o.movesPc = true)
    (h : (m.perform o).result = .ok r) : Inside (m.perform o).machine := by
  cases o with
  | moveTo | advance => exact inside_moveTo_of_ok (Performed.ofOutcome_eq_ok_iff.mp h).1
  | step => exact inside_step_of_ok (Performed.ofCycle_eq_ok_iff.mp h).1
  | _ => cases moves

theorem inside_perform (checked : o.isSetPc = false) (h : Inside m) :
    Inside (m.perform o).machine := by
  cases o with
  | step => exact inside_step h
  | moveTo | advance => exact holds_moveTo Inside h inside_of_lt
  | setPc => cases checked
  | write | writeWord | push | pop => exact holds_update Inside h fun _ _ => h
  | reset part =>
    cases part with
    | pc => exact (by decide : Memory.programStart.toNat ≤ 4095)
    | _ => exact h
  | _ => exact h

end ProgramCounter

theorem outside_of_perform (h : (m.perform o).result = .error (.fault (.outOfBounds a))) :
    4096 ≤ a.toNat := by
  cases hl : o.isLoad with
  | true => cases hl.symm.trans (isLoading_of_perform h).symm
  | false => exact isAccess_of_perform hl h

/-- What may be relied on when a machine performs an operation. -/
structure Orderly (m : Machine) (o : Operation) : Prop where
  arrived : o.movesPc = true → ∀ r, (m.perform o).result = .ok r →
    (m.perform o).machine.pc.toNat ≤ 4095
  outside : ∀ a, (m.perform o).result = .error (.fault (.outOfBounds a)) → 4096 ≤ a.toNat
  unchanged : o.isAtomic = true → ∀ e, (m.perform o).result = .error e → (m.perform o).machine = m

theorem orderly (m : Machine) (o : Operation) : Orderly m o where
  arrived moves _ h := inside_perform_of_ok moves h
  outside _ h := outside_of_perform h
  unchanged atomic _ h := machine_perform_of_error atomic h

/-- A session on a fresh machine never stacks more than sixteen entries, and leaves the program
counter in memory unless it sets it without a check. Whatever came before, a move that succeeds
ends in memory, a reported address lies above it, and a failure of an operation that works as a
whole changes nothing. -/
theorem session_bounded (random : RandomSource) (os : List Operation) :
    ((fresh random).leftBy os).stack.depth ≤ 16 ∧
      ((∀ o ∈ os, o.isSetPc = false) → ((fresh random).leftBy os).pc.toNat ≤ 4095) ∧
      ∀ o, Orderly ((fresh random).leftBy os) o := by
  have shallow : (fresh random).stack.depth ≤ 16 := Nat.zero_le 16
  have inside : Inside (fresh random) := (by decide : Memory.programStart.toNat ≤ 4095)
  refine ⟨?_, ?_, orderly _⟩
  · exact leftBy_induction (P := (·.stack.depth ≤ 16)) shallow fun _ _ _ => depth_perform_le
  · intro checked
    exact leftBy_induction (P := Inside) inside fun _ o ho => inside_perform (checked o ho)

end Machine

end Chip8
