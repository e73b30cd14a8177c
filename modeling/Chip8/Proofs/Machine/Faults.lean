import Chip8.Proofs.Machine.LastWriter

/-! # Faults by their operations

A load fails for want of an image, and nothing else does. All other operations fail at
an address that lies above memory, or for the sake of the call stack.
-/

namespace Chip8

namespace Fault

/-- The faults of a machine that has its program: one of the call stack, or an address above
memory. -/
def IsAccess : Fault → Prop
  | outOfBounds a => 4096 ≤ a.toNat
  | stackOverflow | stackUnderflow => True
  | emptyProgram | unreadable _ _ => False

theorem IsAccess.not_loading {f : Fault} (h : f.IsAccess) : f.isLoading = false := by
  cases f with
  | outOfBounds | stackOverflow | stackUnderflow => rfl
  | emptyProgram | unreadable => cases h

end Fault

namespace Operation

def isLoad : Operation → Bool
  | load _ | loadFile _ _ => true
  | _ => false

end Operation

namespace Machine

variable {m : Machine} {o : Operation} {f : Fault}

theorem isAccess_of_fetch (h : m.fetch = .error (.fault f)) : f.IsAccess := by
  rw [fetch_eq] at h
  split at h
  · rename_i high
    cases h
    simpa [Fault.IsAccess] using high
  · split at h
    · cases h
      exact Nat.le_refl 4096
    · split at h <;> cases h

theorem isAccess_of_destination {i : Instruction} (h : m.destination i = .error f) :
    f.IsAccess := by
  rcases destination_error_cases h with ⟨-, -, rfl⟩ | ⟨-, -, rfl⟩ | ⟨-, rfl⟩
  · trivial
  · trivial
  · have index := Nat.lt_trans m.index.toNat_lt (by decide : 2 ^ 16 < UInt64.size)
    rw [Fault.IsAccess, toNat_ofNat_max index]
    exact Nat.le_max_right _ _

theorem isAccess_of_step (h : m.step.result = .error (.fault f)) : f.IsAccess := by
  cases m.stepping with
  | halted _ hc | moved _ _ _ _ _ _ hc =>
    rw [hc] at h
    cases h
  | unfetched e _ hf hc =>
    rw [hc] at h
    obtain rfl := Except.error.inj h
    exact isAccess_of_fetch hf
  | stuck i g _ _ hd hc =>
    rw [hc] at h
    cases h
    exact isAccess_of_destination hd
  | outside i a _ _ _ high hc =>
    rw [hc] at h
    cases h
    exact high

theorem isAccess_of_moveTo {a : Address} (h : (m.moveTo a).2 = .error f) : f.IsAccess := by
  unfold moveTo at h
  split at h
  · cases h
  · cases h
    exact Nat.le_of_not_lt ‹_›

theorem isAccess_of_paint {x y rows : UInt8} {a : Address}
    (h : (m.screen.paint m.memory x y a rows).2 = .error f) : f.IsAccess := by
  rw [Screen.snd_paint] at h
  split at h
  · cases h
  · cases h
    rw [Fault.IsAccess, toNat_ofNat_max a.toNat_lt]
    exact Nat.le_max_right _ _

theorem isAccess_of_perform (direct : o.isLoad = false)
    (h : (m.perform o).result = .error (.fault f)) : f.IsAccess := by
  cases o with
  | load | loadFile => cases direct
  | read a =>
    rw [result_read] at h
    split at h <;> cases h
    exact Nat.le_of_not_lt ‹_›
  | write a v =>
    rw [result_write] at h
    split at h <;> cases h
    exact Nat.le_of_not_lt ‹_›
  | readWord a =>
    rw [result_readWord] at h
    split at h <;> cases h
    rw [Fault.IsAccess]
    split
    · decide
    · omega
  | writeWord a w =>
    rw [result_writeWord] at h
    split at h <;> cases h
    have sum : (a + 1).toNat = (a.toNat + 1) % 2 ^ 64 := by simp [UInt64.toNat_add]
    have := a.toNat_lt
    rw [Fault.IsAccess]
    split <;> omega
  | push r =>
    obtain ⟨-, rfl⟩ := CallStack.push_eq_error_iff.mp (Performed.update_eq_error_iff.mp h)
    trivial
  | pop =>
    have failed := Performed.update_eq_error_iff.mp h
    unfold CallStack.pop at failed
    split at failed <;> cases failed
    trivial
  | moveTo | advance => exact isAccess_of_moveTo (Performed.ofOutcome_eq_error_iff.mp h)
  | paint => exact isAccess_of_paint (Performed.query_eq_error_iff.mp h)
  | fetch =>
    apply isAccess_of_fetch
    cases hf : m.fetch with
    | ok i =>
      rw [perform, hf] at h
      cases h
    | error e =>
      rw [perform, hf] at h
      exact congrArg Except.error (Except.error.inj h)
  | step => exact isAccess_of_step (Performed.ofCycle_eq_error_iff.mp h)
  | setRegister | addRegister | setPc | setIndex | reset | clearScreen => cases h

theorem isLoading_of_load {image : Array UInt8}
    (h : (m.perform (.load image)).result = .error (.fault f)) : f.isLoading = true := by
  rw [result_load] at h
  split at h <;> cases h
  rfl

/-- The faults of loading are those of the loads. -/
theorem isLoading_of_perform (h : (m.perform o).result = .error (.fault f)) :
    f.isLoading = o.isLoad := by
  cases o with
  | load image => exact isLoading_of_load h
  | loadFile path reading =>
    cases reading with
    | ok image => exact isLoading_of_load h
    | error cause =>
      cases h
      rfl
  | _ => exact (isAccess_of_perform rfl h).not_loading

end Machine

end Chip8
