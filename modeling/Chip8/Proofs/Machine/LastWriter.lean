import Chip8.Proofs.Machine.Halting
import Chip8.Proofs.Memory.Change

/-! # The last writer of a cell

Each cell of memory holds what the last successful operation that covers it wrote
there. Whether an operation on memory succeeds is decided by its address or its
image alone, and one that fails leaves the machine as it was.
-/

namespace Chip8

namespace Operation

/-- The byte that an operation gives a cell of memory when it succeeds, if it covers the cell. -/
def writes (n : Nat) : Operation → Option UInt8
  | .write a v => if n = a.toNat then some v else none
  | .writeWord a w =>
    if n = a.toNat then some (.ofNat (w.toNat / 256))
    else if n = a.toNat + 1 then some (.ofNat (w.toNat % 256)) else none
  | .load image | .loadFile _ (.ok image) => Memory.imageByte image n
  | .reset .memory => some 0
  | _ => none

/-- Operations that do all of their work or none of it. -/
def isAtomic : Operation → Bool
  | paint _ _ _ _ | step => false
  | _ => true

end Operation

namespace Machine

variable (m : Machine) (o : Operation)

section Results

variable (a : Address)

theorem result_read : (m.perform (.read a)).result =
    if a.toNat < 4096 then .ok (.byte (m.memory.byte a.toNat))
    else .error (.fault (.outOfBounds a)) := by
  rw [perform, Memory.read_eq]
  split <;> rfl

theorem result_readWord : (m.perform (.readWord a)).result =
    if a.toNat < 4095 then
      .ok (.word (.ofNat
        (256 * (m.memory.byte a.toNat).toNat + (m.memory.byte (a.toNat + 1)).toNat)))
    else .error (.fault (.outOfBounds (if a.toNat = 4095 then 4096 else a))) := by
  rw [perform, Memory.readWord_eq, ← Word.toNat_ofBytes, UInt16.ofNat_toNat]
  by_cases outside : 4096 ≤ a.toNat
  · rw [if_pos outside, if_neg (by omega), if_neg (by omega)]
    rfl
  · by_cases last : a.toNat = 4095
    · rw [if_neg outside, if_pos last, if_neg (by omega), if_pos last]
      rfl
    · rw [if_neg outside, if_neg last, if_pos (by omega)]
      rfl

theorem result_write (v : UInt8) : (m.perform (.write a v)).result =
    if a.toNat < 4096 then .ok .done else .error (.fault (.outOfBounds a)) := by
  rw [perform]
  split
  · rename_i h
    obtain ⟨memory, hm, -⟩ := m.memory.write_eq_ok a v h
    rw [hm]
    rfl
  · rename_i h
    rw [m.memory.write_eq_error a v (Nat.le_of_not_lt h)]
    rfl

theorem result_writeWord (w : Word) : (m.perform (.writeWord a w)).result =
    if a.toNat < 4095 then .ok .done
    else .error (.fault (.outOfBounds (if a.toNat = 2 ^ 64 - 1 then a else a + 1))) := by
  rw [perform]
  split
  · rename_i h
    obtain ⟨memory, hm, -⟩ := m.memory.writeWord_eq_ok a w h
    rw [hm]
    rfl
  · rename_i h
    rw [m.memory.writeWord_eq_error a w (Nat.le_of_not_lt h)]
    rfl

theorem result_load (image : Array UInt8) : (m.perform (.load image)).result =
    if image.isEmpty then .error (.fault .emptyProgram)
    else .ok (.count (min image.size 3584)) := by
  rw [perform, Memory.load]
  split <;> rfl

end Results

variable {m o}

theorem machine_update_of_error {α : Type} {change : α → Machine × Answer} {r : Except Fault α}
    {e : StepError} (h : (Performed.update m change r).result = .error e) :
    (Performed.update m change r).machine = m := by
  cases r with
  | ok a => cases h
  | error f => rfl

theorem machine_load_of_error {image : Array UInt8} {e : StepError}
    (h : (Performed.ofLoading m (m.memory.load image)).result = .error e) :
    (Performed.ofLoading m (m.memory.load image)).machine = m := by
  unfold Memory.load at h ⊢
  split
  · rfl
  · rename_i h'
    rw [if_neg h'] at h
    cases h

theorem machine_moveTo_of_error {a : Address} {e : StepError}
    (h : (Performed.ofOutcome (m.moveTo a)).result = .error e) :
    (Performed.ofOutcome (m.moveTo a)).machine = m := by
  unfold moveTo at h ⊢
  split
  · rename_i low
    rw [if_pos low] at h
    cases h
  · rfl

/-- An operation that works as a whole or not at all leaves the machine as it was if it fails. -/
theorem machine_perform_of_error {e : StepError} (atomic : o.isAtomic = true)
    (h : (m.perform o).result = .error e) : (m.perform o).machine = m := by
  cases o with
  | paint | step => cases atomic
  | write | writeWord | push | pop => exact machine_update_of_error h
  | moveTo | advance => exact machine_moveTo_of_error h
  | load image => exact machine_load_of_error h
  | loadFile path reading =>
    cases reading with
    | error cause => rfl
    | ok image => exact machine_load_of_error h
  | setRegister | addRegister | setPc | setIndex | reset | clearScreen => cases h
  | read | readWord | fetch => rfl

theorem byte_perform_of_kept {n : Nat} (hw : o.writes n = none)
    (kept : (m.perform o).machine.memory = m.memory) :
    (m.perform o).machine.memory.byte n =
      (if (m.perform o).result.isOk then o.writes n else none).getD (m.memory.byte n) := by
  rw [kept, hw, ite_self]
  rfl

theorem byte_ofLoading (image : Array UInt8) (n : Nat) :
    (Performed.ofLoading m (m.memory.load image)).machine.memory.byte n =
      (if (Performed.ofLoading m (m.memory.load image)).result.isOk then
        Memory.imageByte image n else none).getD (m.memory.byte n) := by
  have placed : (Performed.ofLoading m (m.memory.load image)).machine.memory.byte n =
      (Memory.imageByte image n).getD (m.memory.byte n) := by
    rw [← Memory.byte_place, ← Memory.memory_load]
    rfl
  rw [placed]
  cases h : image.isEmpty with
  | true => rw [Memory.imageByte_of_isEmpty n h, ite_self]
  | false =>
    have accepted := m.result_load image
    rw [h] at accepted
    change (Performed.ofLoading m (m.memory.load image)).result = _ at accepted
    rw [accepted]
    rfl

theorem byte_perform (n : Nat) : (m.perform o).machine.memory.byte n =
    (if (m.perform o).result.isOk then o.writes n else none).getD (m.memory.byte n) := by
  cases o with
  | load image => exact byte_ofLoading image n
  | loadFile path reading =>
    cases reading with
    | error cause => rfl
    | ok image => exact byte_ofLoading image n
  | write a v =>
    rw [perform]
    rcases Nat.lt_or_ge a.toNat 4096 with h | h
    · obtain ⟨memory, hm, hb⟩ := m.memory.write_eq_ok a v h
      rw [hm]
      change memory.byte n = (if n = a.toNat then some v else none).getD (m.memory.byte n)
      rw [hb]
      split <;> rfl
    · rw [m.memory.write_eq_error a v h]
      rfl
  | writeWord a w =>
    rw [perform]
    rcases Nat.lt_or_ge a.toNat 4095 with h | h
    · obtain ⟨memory, hm, hb⟩ := m.memory.writeWord_eq_ok a w h
      rw [hm]
      change memory.byte n = (if n = a.toNat then some (.ofNat (w.toNat / 256))
        else if n = a.toNat + 1 then some (.ofNat (w.toNat % 256)) else none).getD _
      rw [hb]
      split
      · rfl
      · split <;> rfl
    · rw [m.memory.writeWord_eq_error a w h]
      rfl
  | reset part =>
    cases part with
    | memory => exact Memory.byte_zero n
    | _ => exact byte_perform_of_kept rfl rfl
  | push | pop =>
    exact byte_perform_of_kept rfl (holds_update (·.memory = m.memory) rfl fun _ _ => rfl)
  | moveTo | advance =>
    exact byte_perform_of_kept rfl (holds_moveTo (·.memory = m.memory) rfl fun _ => rfl)
  | step => exact byte_perform_of_kept rfl m.memory_step
  | _ => exact byte_perform_of_kept rfl rfl

/-- The bytes that the successful operations of a session give a cell of memory, in order. -/
def bytesWritten (m : Machine) (os : List Operation) (n : Nat) : List UInt8 :=
  (os.zip (m.performAll os)).filterMap fun (o, p) => if p.result.isOk then o.writes n else none

theorem bytesWritten_cons (os : List Operation) (n : Nat) : m.bytesWritten (o :: os) n =
    (if (m.perform o).result.isOk then o.writes n else none).toList ++
      (m.perform o).machine.bytesWritten os n := by
  rw [bytesWritten, performAll, List.zip_cons_cons, List.filterMap_cons]
  split <;> simp_all [bytesWritten]

/-- After a session each cell holds the last byte that was written there. -/
theorem byte_leftBy (os : List Operation) (n : Nat) :
    (m.leftBy os).memory.byte n = (m.bytesWritten os n).getLastD (m.memory.byte n) := by
  induction os generalizing m with
  | nil => rfl
  | cons o os ih =>
    rw [leftBy_cons, ih, byte_perform, bytesWritten_cons]
    cases (if (m.perform o).result.isOk then o.writes n else none) with
    | none => rfl
    | some b => exact (List.getLastD_cons ..).symm

/-- What a machine answers when its memory is accessed, and that failures change nothing. -/
structure AccessAnswers (m : Machine) : Prop where
  read : ∀ a : Address, (m.perform (.read a)).result =
    if a.toNat < 4096 then .ok (.byte (m.memory.byte a.toNat))
    else .error (.fault (.outOfBounds a))
  readWord : ∀ a : Address, (m.perform (.readWord a)).result =
    if a.toNat < 4095 then
      .ok (.word (.ofNat
        (256 * (m.memory.byte a.toNat).toNat + (m.memory.byte (a.toNat + 1)).toNat)))
    else .error (.fault (.outOfBounds (if a.toNat = 4095 then 4096 else a)))
  write : ∀ (a : Address) (v : UInt8), (m.perform (.write a v)).result =
    if a.toNat < 4096 then .ok .done else .error (.fault (.outOfBounds a))
  writeWord : ∀ (a : Address) (w : Word), (m.perform (.writeWord a w)).result =
    if a.toNat < 4095 then .ok .done
    else .error (.fault (.outOfBounds (if a.toNat = 2 ^ 64 - 1 then a else a + 1)))
  load : ∀ image : Array UInt8, (m.perform (.load image)).result =
    if image.isEmpty then .error (.fault .emptyProgram) else .ok (.count (min image.size 3584))
  failed : ∀ o : Operation, o.isAtomic = true → ∀ e, (m.perform o).result = .error e →
    (m.perform o).machine = m

theorem accessAnswers (m : Machine) : AccessAnswers m where
  read := m.result_read
  readWord := m.result_readWord
  write := m.result_write
  writeWord := m.result_writeWord
  load := m.result_load
  failed _ atomic _ h := machine_perform_of_error atomic h

/-- Memory is a store in which the last successful writer of a cell wins, whatever the machine
was asked to do in between, and an access succeeds or fails by its address or image alone. -/
theorem memory_lastWriter (m : Machine) (os : List Operation) :
    (∀ a : Address, a.toNat < 4096 → ((m.leftBy os).perform (.read a)).result =
      .ok (.byte ((m.bytesWritten os a.toNat).getLastD (m.memory.byte a.toNat)))) ∧
      AccessAnswers (m.leftBy os) := by
  refine ⟨?_, accessAnswers _⟩
  intro a h
  rw [result_read, if_pos h, byte_leftBy]

theorem lastWriter_overwritten :
    let m := (fresh ⟨.replicate 8 0, 0⟩).leftBy [.writeWord 0x300 0xABCD, .write 0x301 0x12]
    (m.perform (.read 0x300)).result = .ok (.byte 0xAB) ∧
      (m.perform (.read 0x301)).result = .ok (.byte 0x12) := by
  have told := (memory_lastWriter (fresh ⟨.replicate 8 0, 0⟩)
    [.writeWord 0x300 0xABCD, .write 0x301 0x12]).1
  exact ⟨(told 0x300 (by decide)).trans rfl, (told 0x301 (by decide)).trans rfl⟩

end Machine

end Chip8
