import Chip8.Proofs.Instruction.Canonical
import Chip8.Proofs.Machine.Confinement
import Chip8.Proofs.Machine.LastWriter

/-! # Assembled programs

A program that is assembled and loaded is found again by fetching at every second
address from 0x200 on, as far as it fits. All other even addresses hold no
instruction. Running the program does not change what is found.
-/

namespace Chip8

namespace Instruction

variable (program : List Instruction)

theorem length_assemble : (assemble program).length = 2 * program.length := by
  induction program with
  | nil => rfl
  | cons i is ih =>
    rw [assemble, List.flatMap_cons, List.length_append, ← assemble, ih]
    simp
    omega

theorem getElem?_assemble (j : Nat) :
    (assemble program)[2 * j]? = program[j]?.map (fun i => i.encode.high) ∧
      (assemble program)[2 * j + 1]? = program[j]?.map fun i => i.encode.low := by
  induction program generalizing j with
  | nil => exact ⟨rfl, rfl⟩
  | cons i is ih =>
    cases j with
    | zero => exact ⟨rfl, rfl⟩
    | succ j => exact ih j

theorem assemble_take (n : Nat) : assemble (program.take n) = (assemble program).take (2 * n) := by
  induction program generalizing n with
  | nil => simp [assemble]
  | cons i is ih =>
    cases n with
    | zero => rfl
    | succ n => exact congrArg (fun bs => i.encode.high :: i.encode.low :: bs) (ih n)

end Instruction

namespace Memory

theorem imageByte_eq {image : Array UInt8} {n : Nat} (h : n < 4096) :
    imageByte image n = if 0x200 ≤ n then image[n - 0x200]? else none := by
  unfold imageByte
  split
  · rw [if_pos (by omega)]
  · split
    · have beyond : image.size ≤ n - 0x200 := by omega
      simp [beyond]
    · rfl

end Memory

namespace Machine

open Instruction

variable (seed : UInt64) (program : List Instruction)

def ofProgram (seed : UInt64) (program : List Instruction) : Machine :=
  loaded seed (assemble program).toArray

theorem memory_loaded (image : Array UInt8) :
    (loaded seed image).memory = Memory.zero.place image :=
  Memory.zero.memory_load image

theorem byte_ofProgram {n : Nat} (h : n < 4096) : (ofProgram seed program).memory.byte n =
    if 0x200 ≤ n then (assemble program)[n - 0x200]?.getD 0 else 0 := by
  rw [ofProgram, memory_loaded, Memory.byte_place, Memory.imageByte_eq h, Memory.byte_zero]
  split
  · simp
  · rfl

theorem word_ofProgram {j : Nat} (h : j < program.length) (hj : j < 1792) :
    Word.ofBytes ((ofProgram seed program).memory.byte (0x200 + 2 * j))
      ((ofProgram seed program).memory.byte (0x200 + 2 * j + 1)) = program[j].encode := by
  have low : 0x200 + 2 * j + 1 - 0x200 = 2 * j + 1 := by omega
  rw [byte_ofProgram seed program (by omega), byte_ofProgram seed program (by omega),
    if_pos (by omega), if_pos (by omega), Nat.add_sub_cancel_left, low,
    (getElem?_assemble program j).1, (getElem?_assemble program j).2]
  simp [h]

theorem byte_ofProgram_eq_zero {n : Nat} (h : n < 4096)
    (outside : n < 0x200 ∨ 0x200 + 2 * program.length ≤ n) :
    (ofProgram seed program).memory.byte n = 0 := by
  rw [byte_ofProgram seed program h]
  split
  · have beyond : (assemble program).length ≤ n - 0x200 := by
      rw [length_assemble]
      omega
    simp [beyond]
  · rfl

theorem memory_ofProgram_take : (ofProgram seed (program.take 1792)).memory =
    (ofProgram seed program).memory := by
  apply Memory.ext_byte
  intro n h
  rw [byte_ofProgram seed _ h, byte_ofProgram seed _ h, assemble_take,
    List.getElem?_take_of_lt (by omega)]

theorem fetch_of_word {m : Machine} {n : Nat} {w : Word} (h : n < 4095)
    (hw : .ofBytes (m.memory.byte n) (m.memory.byte (n + 1)) = w) :
    { m with pc := .ofNat n }.fetch =
      match decode w with
      | some i => .ok i
      | none => .error (.unknownInstruction w (.ofNat n)) := by
  have pc : (UInt16.ofNat n).toNat = n :=
    UInt16.toNat_ofNat_of_lt' (Nat.lt_trans h (by decide))
  have found := fetch_eq { m with pc := .ofNat n }
  rw [word, pc, if_neg (by omega), if_neg (by omega)] at found
  subst hw
  exact found

theorem result_load_assemble (nonempty : program ≠ []) (m : Machine) :
    (m.perform (.load (assemble program).toArray)).result =
      .ok (.count (2 * min program.length 1792)) := by
  have size : (assemble program).toArray.size = 2 * program.length := length_assemble program
  have some_bytes : ¬ (assemble program).toArray.isEmpty = true := by
    have := List.length_pos_iff.mpr nonempty
    rw [Array.isEmpty_iff_size_eq_zero, size]
    omega
  have fits : min (2 * program.length) 3584 = 2 * min program.length 1792 := by omega
  rw [result_load, if_neg some_bytes, size, fits]

/-- While a loaded program runs, fetching finds its instructions at their places as far as they
fit, and none at the other even addresses. -/
theorem fetch_ofProgram (fit : ∀ i ∈ program, i.InRange) (k : Nat) :
    (program ≠ [] → ((ofSeed seed).perform (.load (assemble program).toArray)).result =
      .ok (.count (2 * min program.length 1792))) ∧
    (∀ j (h : j < program.length), j < 1792 →
      { (ofProgram seed program).after k with pc := .ofNat (0x200 + 2 * j) }.fetch =
        .ok program[j]) ∧
    ((ofProgram seed program).after k).memory = (ofProgram seed (program.take 1792)).memory ∧
    ∀ a ≤ 0xFFE, a % 2 = 0 → a < 0x200 ∨ 0x200 + 2 * min program.length 1792 ≤ a →
      { (ofProgram seed program).after k with pc := .ofNat a }.fetch =
        .error (.unknownInstruction 0 (.ofNat a)) := by
  have kept : ((ofProgram seed program).after k).memory = (ofProgram seed program).memory :=
    ((confined_loaded seed _).after k).memory_eq
  refine ⟨fun nonempty => result_load_assemble program nonempty _, ?_, ?_, ?_⟩
  · intro j h hj
    rw [fetch_of_word (by omega) (kept ▸ word_ofProgram seed program h hj),
      decode_encode (fit _ (List.getElem_mem h))]
  · rw [kept, memory_ofProgram_take]
  · intro a ha even outside
    have length : (program.take 1792).length = min program.length 1792 := by
      rw [List.length_take, Nat.min_comm]
    have zeros : Word.ofBytes (((ofProgram seed program).after k).memory.byte a)
        (((ofProgram seed program).after k).memory.byte (a + 1)) = 0 := by
      rw [kept, ← memory_ofProgram_take, byte_ofProgram_eq_zero seed _ (by omega) (by omega),
        byte_ofProgram_eq_zero seed _ (by omega) (by omega)]
      rfl
    rw [fetch_of_word (by omega) zeros]
    rfl

def drawing : List Instruction := [.loadIndex 0x200, .draw 0 0 1, .jump 0x202]

theorem fetch_drawing :
    { (ofProgram 7 drawing).after 5 with pc := .ofNat (0x200 + 2 * 1) }.fetch = .ok (.draw 0 0 1) ∧
    { (ofProgram 7 drawing).after 5 with pc := .ofNat 0x206 }.fetch =
      .error (.unknownInstruction 0 (.ofNat 0x206)) := by
  obtain ⟨-, inside, -, outside⟩ := fetch_ofProgram 7 drawing (by decide) 5
  exact ⟨inside 1 (by decide) (by decide),
    outside 0x206 (by decide) (by decide) (Or.inr (by decide))⟩

end Machine

end Chip8
