import Chip8.Loading
import Chip8.Proofs.Memory.Access
import Mathlib.Algebra.Group.Nat.Defs

/-! # Changes of memory

A write succeeds if every cell that it is for exists, and then changes those cells
only. A load changes the cells that its image covers below the top of memory.
-/

namespace Chip8

namespace Address

variable (a : Address)

theorem cell_next_eq_ok (h : a.toNat < 4095) :
    a.offset 1 >>= cell = .ok ⟨a.toNat + 1, by omega⟩ := by
  have fits : a.toNat + 1 < UInt64.size := Nat.lt_trans (Nat.succ_lt_succ h) (by decide)
  have sum := a.toNat_add_ofNat fits
  rw [offset_eq_ok fits]
  change (a + UInt64.ofNat 1).cell = _
  rw [cell_eq_ok (by omega)]
  simp only [sum]

theorem cell_next_eq_error (h : 4095 ≤ a.toNat) :
    a.offset 1 >>= cell = .error (.outOfBounds (if a.toNat = 2 ^ 64 - 1 then a else a + 1)) := by
  have size : UInt64.size = 2 ^ 64 := rfl
  have := a.toNat_lt
  by_cases highest : a.toNat = 2 ^ 64 - 1
  · rw [offset_eq_error (by omega), if_pos highest]
    rfl
  · have fits : a.toNat + 1 < UInt64.size := by omega
    have sum := a.toNat_add_ofNat fits
    rw [offset_eq_ok fits, if_neg highest]
    exact cell_eq_error (by omega)

end Address

theorem Word.high_eq_ofNat (w : Word) : w.high = .ofNat (w.toNat / 256) := by
  apply UInt8.toNat_inj.mp
  simp [high, Nat.shiftRight_eq_div_pow]

theorem Word.low_eq_ofNat (w : Word) : w.low = .ofNat (w.toNat % 256) := by
  apply UInt8.toNat_inj.mp
  simp [low]

namespace Memory

variable (m : Memory) (a : Address) (n : Nat)

theorem byte_set {i : Nat} (hi : i < 4096) (v : UInt8) :
    (Memory.mk (m.bytes.set i v hi)).byte n = if n = i then v else m.byte n := by
  by_cases h : n < 4096
  · simp [byte, h, Vector.getElem_set, eq_comm]
  · simp [byte, h]
    omega

theorem write_eq_ok (v : UInt8) (h : a.toNat < 4096) :
    ∃ m', m.write a v = .ok m' ∧ ∀ n, m'.byte n = if n = a.toNat then v else m.byte n := by
  refine ⟨⟨m.bytes.set a.toNat v⟩, ?_, fun n => m.byte_set n h v⟩
  rw [write, Address.cell_eq_ok h]
  rfl

theorem write_eq_error (v : UInt8) (h : 4096 ≤ a.toNat) :
    m.write a v = .error (.outOfBounds a) := by
  rw [write, Address.cell_eq_error h]
  rfl

theorem writeWord_eq_ok (w : Word) (h : a.toNat < 4095) :
    ∃ m', m.writeWord a w = .ok m' ∧ ∀ n, m'.byte n =
      if n = a.toNat then .ofNat (w.toNat / 256)
      else if n = a.toNat + 1 then .ofNat (w.toNat % 256) else m.byte n := by
  obtain ⟨m', hm, hb⟩ := m.write_eq_ok a w.high (by omega)
  refine ⟨⟨m'.bytes.set (a.toNat + 1) w.low⟩, ?_, ?_⟩
  · simp only [writeWord, ← bind_assoc, a.cell_next_eq_ok h]
    change (m.write a w.high >>= fun m => pure (Memory.mk (m.bytes.set (a.toNat + 1) w.low))) = _
    rw [hm]
    rfl
  · intro n
    rw [m'.byte_set n (by omega), hb, w.high_eq_ofNat, w.low_eq_ofNat]
    by_cases low : n = a.toNat + 1
    · simp [low]
    · simp [low]

theorem writeWord_eq_error (w : Word) (h : 4095 ≤ a.toNat) : m.writeWord a w =
    .error (.outOfBounds (if a.toNat = 2 ^ 64 - 1 then a else a + 1)) := by
  simp only [writeWord, ← bind_assoc, a.cell_next_eq_error h]
  rfl

theorem byte_zero : zero.byte n = 0 := by
  by_cases h : n < 4096 <;> simp [byte, zero, h]

def imageByte (image : Array UInt8) (n : Nat) : Option UInt8 :=
  if 0x200 ≤ n ∧ n < 0x200 + min image.size 3584 then image[n - 0x200]? else none

theorem byte_place (image : Array UInt8) :
    (m.place image).byte n = (imageByte image n).getD (m.byte n) := by
  by_cases h : n < 4096
  · rw [byte_eq_getElem _ h, m.getElem_place image h, imageByte, m.byte_eq_getElem h]
    by_cases low : 0x200 ≤ n
    · by_cases inside : n - 0x200 < image.size
      · rw [if_pos low, if_pos (by omega)]
        simp [inside]
      · rw [if_pos low, if_neg (by omega)]
        simp [inside]
    · simp [low]
  · have outside : ¬ n < 0x200 + min image.size 3584 := by omega
    simp [byte, imageByte, h, outside]

theorem imageByte_of_isEmpty {image : Array UInt8} (h : image.isEmpty = true) :
    imageByte image n = none := by
  have empty : image.size = 0 := by simpa using h
  simp [imageByte, empty]

/-- An image that is refused for being empty would not have changed anything either. -/
theorem memory_load (image : Array UInt8) : (m.load image).memory = m.place image := by
  unfold load
  split
  · rename_i h
    apply ext_byte
    intro n _
    rw [byte_place, imageByte_of_isEmpty n h]
    rfl
  · rfl

end Memory

end Chip8
