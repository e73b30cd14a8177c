import Chip8.Memory

/-! # Reads of memory

A read is decided by the address alone: inside memory it gives the byte there,
outside it names the first address that has none. Reads of words and of runs of
bytes follow from it.
-/

namespace Chip8

namespace Memory

/-- The byte at a position, zero above the top of memory. -/
def byte (m : Memory) (a : Nat) : UInt8 := m.bytes[a]?.getD 0

variable (m : Memory) (a : Address)

theorem byte_eq_getElem {n : Nat} (h : n < 4096) : m.byte n = m.bytes[n] := by
  simp [byte, h]

theorem byte_eq_zero {n : Nat} (h : 4096 ≤ n) : m.byte n = 0 := by
  simp [byte, h]

theorem ext_byte {m m' : Memory} (h : ∀ a < 4096, m.byte a = m'.byte a) : m = m' := by
  cases m with
  | mk bytes =>
    cases m' with
    | mk bytes' =>
      congr 1
      apply Vector.ext
      intro a ha
      simpa [byte, ha] using h a ha

theorem read_eq : m.read a =
    if a.toNat < 4096 then .ok (m.byte a.toNat) else .error (.outOfBounds a) := by
  split
  · rename_i h
    rw [m.read_eq_ok h, m.byte_eq_getElem h]
  · rename_i h
    exact m.read_eq_error (Nat.le_of_not_lt h)

theorem read_offset_eq {i : Nat} (h : a.toNat + i ≤ 4096) :
    (a.offset i >>= m.read) =
      if a.toNat + i < 4096 then .ok (m.byte (a.toNat + i)) else .error (.outOfBounds 4096) := by
  have fits : a.toNat + i < UInt64.size := Nat.lt_of_le_of_lt h (by decide)
  have sum := a.toNat_add_ofNat fits
  have top (hi : ¬ a.toNat + i < 4096) : a + UInt64.ofNat i = 4096 := by
    apply UInt64.toNat_inj.mp
    rw [sum]
    simp
    omega
  rw [Address.offset_eq_ok fits]
  change m.read (a + UInt64.ofNat i) = _
  rw [read_eq, sum]
  split
  · rfl
  · rename_i hi
    rw [top hi]

theorem readWord_eq : m.readWord a =
    if 4096 ≤ a.toNat then .error (.outOfBounds a)
    else if a.toNat = 4095 then .error (.outOfBounds 4096)
    else .ok (.ofBytes (m.byte a.toNat) (m.byte (a.toNat + 1))) := by
  have parts : m.readWord a =
      m.read a >>= fun high => (a.offset 1 >>= m.read) >>= fun low => pure (.ofBytes high low) := by
    simp only [readWord, bind_assoc]
  rw [parts, read_eq]
  by_cases h : 4096 ≤ a.toNat
  · rw [if_pos h, if_neg (Nat.not_lt.mpr h)]
    rfl
  · rw [if_neg h, if_pos (Nat.lt_of_not_le h), m.read_offset_eq a (by omega)]
    by_cases ht : a.toNat = 4095
    · rw [if_pos ht, if_neg (by omega)]
      rfl
    · rw [if_neg ht, if_pos (by omega)]
      rfl

theorem readUpTo_eq_of_le {i : Nat} (count : Nat) (h : a.toNat + i ≤ 4096) :
    m.readUpTo a i count =
      ((List.range' (a.toNat + i) (min count (4096 - (a.toNat + i)))).map m.byte,
        if count ≤ 4096 - (a.toNat + i) then none else some (.outOfBounds 4096)) := by
  induction count generalizing i with
  | zero => simp [readUpTo]
  | succ count ih =>
    rw [readUpTo, m.read_offset_eq a h]
    by_cases ht : a.toNat + i < 4096
    · have rest : min (count + 1) (4096 - (a.toNat + i)) =
          min count (4096 - (a.toNat + (i + 1))) + 1 := by omega
      rw [if_pos ht, rest, List.range'_succ, List.map_cons]
      simp only [ih (i := i + 1) (by omega), Nat.add_assoc]
      congr 2
      apply propext
      omega
    · have none_left : 4096 - (a.toNat + i) = 0 := by omega
      rw [if_neg ht, if_neg (by omega), none_left]
      rfl

/-- A run of bytes that is cut names the top of memory, or its start if that lies above. -/
theorem readUpTo_eq (count : Nat) :
    m.readUpTo a 0 count =
      ((List.range' a.toNat (min count (4096 - a.toNat))).map m.byte,
        if count ≤ 4096 - a.toNat then none
        else some (.outOfBounds (.ofNat (max a.toNat 4096)))) := by
  rcases Nat.lt_or_ge 4096 a.toNat with h | h
  · have out : a.offset 0 >>= m.read = .error (.outOfBounds a) := by
      have start : a + UInt64.ofNat 0 = a := by simp
      rw [Address.offset_eq_ok a.toNat_lt, start]
      exact m.read_eq_error (Nat.le_of_lt h)
    have none_left : 4096 - a.toNat = 0 := by omega
    have above : max a.toNat 4096 = a.toNat := by omega
    rw [none_left, above, UInt64.ofNat_toNat]
    cases count with
    | zero => rfl
    | succ count =>
      rw [readUpTo, out]
      rfl
  · have below : max a.toNat 4096 = 4096 := by omega
    rw [m.readUpTo_eq_of_le a count h, below]
    rfl

end Memory

end Chip8
