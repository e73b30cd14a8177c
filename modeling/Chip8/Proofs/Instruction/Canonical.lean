import Chip8.Proofs.Instruction.Format

/-! # Canonical words

Packing puts the fields of an instruction in range side by side, so that decoding
finds them again. Conversely a word that decodes is packed again from its
instruction, except that the comparison of two registers ignores the last digit.
Clearing that digit gives one canonical word for each instruction in range.
-/

namespace Chip8

namespace Word

/-- The word with the digit cleared that the comparison of two registers ignores. -/
def canonical (w : Word) : Word :=
  if w.toNat / 4096 = 5 ∨ w.toNat / 4096 = 9 then .ofNat (16 * (w.toNat / 16)) else w

theorem toNat_canonical (w : Word) : w.canonical.toNat =
    if w.toNat / 4096 = 5 ∨ w.toNat / 4096 = 9 then 16 * (w.toNat / 16) else w.toNat := by
  have := w.toNat_lt
  unfold canonical
  split
  · rw [UInt16.toNat_ofNat', Nat.mod_eq_of_lt (by omega)]
  · rfl

theorem canonical_eq_iff (w v : Word) : w.canonical = v.canonical ↔
    w = v ∨ w.toNat / 4096 = v.toNat / 4096 ∧ (w.toNat / 4096 = 5 ∨ w.toNat / 4096 = 9) ∧
      w.toNat / 256 % 16 = v.toNat / 256 % 16 ∧ w.toNat / 16 % 16 = v.toNat / 16 % 16 := by
  rw [← UInt16.toNat_inj, ← UInt16.toNat_inj, toNat_canonical, toNat_canonical]
  split <;> split <;> omega

theorem toNat_or_of_lt {w v : Word} {n : Nat} (hw : 2 ^ n ∣ w.toNat) (hv : v.toNat < 2 ^ n) :
    (w ||| v).toNat = w.toNat + v.toNat := by
  obtain ⟨q, hq⟩ := hw
  rw [UInt16.toNat_or, hq, Nat.two_pow_add_eq_or_of_lt hv]

theorem toNat_shiftLeft_of_lt {w : Word} {n : Nat} (hn : n < 16) (h : w.toNat < 2 ^ (16 - n)) :
    (w <<< UInt16.ofNat n).toNat = 2 ^ n * w.toNat := by
  have fits : w.toNat * 2 ^ n < 2 ^ 16 := by
    calc w.toNat * 2 ^ n < 2 ^ (16 - n) * 2 ^ n := Nat.mul_lt_mul_of_pos_right h (Nat.two_pow_pos n)
      _ = 2 ^ 16 := by rw [← Nat.pow_add, Nat.sub_add_cancel (Nat.le_of_lt hn)]
  have amount : (UInt16.ofNat n).toNat % 16 = n := by
    rw [UInt16.toNat_ofNat']
    omega
  rw [UInt16.toNat_shiftLeft, amount, Nat.shiftLeft_eq, Nat.mod_eq_of_lt fits, Nat.mul_comm]

end Word

namespace Instruction

section Pack

variable {d a : Word} {x y n k : UInt8} (hd : d.toNat < 16)
include hd

theorem toNat_identifier : (d <<< 12).toNat = 4096 * d.toNat :=
  Word.toNat_shiftLeft_of_lt (n := 12) (by decide) (Nat.lt_of_lt_of_le hd (by decide))

theorem toNat_register (hx : x.toNat < 16) :
    (d <<< 12 ||| x.toUInt16 <<< 8).toNat = 4096 * d.toNat + 256 * x.toNat := by
  have head := toNat_identifier hd
  have second : (x.toUInt16 <<< 8).toNat = 256 * x.toNat :=
    Word.toNat_shiftLeft_of_lt (n := 8) (by decide) (by simpa using Nat.lt_trans hx (by decide))
  rw [Word.toNat_or_of_lt (n := 12) (by omega) (by omega), head, second]

theorem toNat_packAddress (ha : a.toNat < 4096) :
    (packAddress d a).toNat = 4096 * d.toNat + a.toNat := by
  have head := toNat_identifier hd
  rw [packAddress, Word.toNat_or_of_lt (n := 12) (by omega) ha, head]

theorem toNat_packByte (hx : x.toNat < 16) :
    (packByte d x k).toNat = 4096 * d.toNat + 256 * x.toNat + k.toNat := by
  have head := toNat_register hd hx
  have last : k.toUInt16.toNat < 256 := k.toNat_lt
  rw [packByte, Word.toNat_or_of_lt (n := 8) (by omega) last, head, UInt8.toNat_toUInt16]

theorem toNat_packNibble (hx : x.toNat < 16) (hy : y.toNat < 16) (hn : n.toNat < 16) :
    (packNibble d x y n).toNat = 4096 * d.toNat + 256 * x.toNat + 16 * y.toNat + n.toNat := by
  have head := toNat_register hd hx
  have third : (y.toUInt16 <<< 4).toNat = 16 * y.toNat :=
    Word.toNat_shiftLeft_of_lt (n := 4) (by decide) (by simpa using Nat.lt_trans hy (by decide))
  have last : n.toUInt16.toNat < 16 := by simpa using hn
  have front : (d <<< 12 ||| x.toUInt16 <<< 8 ||| y.toUInt16 <<< 4).toNat =
      4096 * d.toNat + 256 * x.toNat + 16 * y.toNat := by
    rw [Word.toNat_or_of_lt (n := 8) (by omega) (by omega), head, third]
  rw [packNibble, Word.toNat_or_of_lt (n := 4) (by omega) last, front, UInt8.toNat_toUInt16]

theorem digits_packAddress (ha : a.toNat < 4096) :
    (packAddress d a).toNat / 4096 = d.toNat ∧ (packAddress d a).toNat % 4096 = a.toNat := by
  have := toNat_packAddress hd ha
  omega

theorem digits_packByte (hx : x.toNat < 16) :
    (packByte d x k).toNat / 4096 = d.toNat ∧ (packByte d x k).toNat / 256 % 16 = x.toNat ∧
      (packByte d x k).toNat % 256 = k.toNat := by
  have := toNat_packByte (k := k) hd hx
  have := k.toNat_lt
  omega

theorem digits_packNibble (hx : x.toNat < 16) (hy : y.toNat < 16) (hn : n.toNat < 16) :
    (packNibble d x y n).toNat / 4096 = d.toNat ∧ (packNibble d x y n).toNat / 256 % 16 = x.toNat ∧
      (packNibble d x y n).toNat / 16 % 16 = y.toNat ∧
      (packNibble d x y n).toNat % 16 = n.toNat := by
  have := toNat_packNibble hd hx hy hn
  omega

end Pack

theorem decode_encode {i : Instruction} (h : i.InRange) : decode i.encode = some i := by
  rw [decode_eq_ofNumber]
  cases i with
  | clearScreen | ret => rfl
  | jump a | call a | loadIndex a | jumpOffset a =>
    have ha : a.toNat < 4096 := UInt16.lt_iff_toNat_lt.mp h
    simp [encode, ofNumber, digits_packAddress, ha]
  | load x k | add x k | random x k =>
    have hx : x.toNat < 16 := UInt8.lt_iff_toNat_lt.mp h
    simp [encode, ofNumber, digits_packByte, hx]
  | skip c x o =>
    have hx : x.toNat < 16 := UInt8.lt_iff_toNat_lt.mp h.1
    cases o with
    | byte k => cases c <;> simp [encode, ofNumber, digits_packByte, hx]
    | register y =>
      have hy : y.toNat < 16 := UInt8.lt_iff_toNat_lt.mp h.2
      cases c <;> simp [encode, ofNumber, digits_packNibble, hx, hy]
  | combine c x y =>
    have hx : x.toNat < 16 := UInt8.lt_iff_toNat_lt.mp h.1
    have hy : y.toNat < 16 := UInt8.lt_iff_toNat_lt.mp h.2
    cases c <;> simp [encode, ofNumber, digits_packNibble, hx, hy]
  | draw x y n =>
    have hx : x.toNat < 16 := UInt8.lt_iff_toNat_lt.mp h.1
    have hy : y.toNat < 16 := UInt8.lt_iff_toNat_lt.mp h.2.1
    have hn : n.toNat < 16 := UInt8.lt_iff_toNat_lt.mp h.2.2
    simp [encode, ofNumber, digits_packNibble, hx, hy, hn]

/-- A word that decodes is packed again from its instruction, but for an ignored digit. -/
theorem encode_of_decode {w : Word} {i : Instruction} (h : decode w = some i) :
    i.encode = w.canonical := by
  have digit (m : Nat) : (UInt8.ofNat (m % 16)).toNat = m % 16 := toNat_digit m
  have byte : (UInt8.ofNat (w.toNat % 256)).toNat = w.toNat % 256 := by simp
  have address : (UInt16.ofNat (w.toNat % 4096)).toNat = w.toNat % 4096 := toNat_address w.toNat
  rw [decode_eq_ofNumber, ofNumber] at h
  apply UInt16.toNat_inj.mp
  rw [Word.toNat_canonical]
  -- one goal for each row of the table; only 0 and 8 as the first digit have rows inside
  split at h
  case h_1 =>
    split at h
    · cases h
      simp [*, encode]
    · split at h
      · cases h
        simp [*, encode]
      · cases h
  case h_9 top =>
    split at h
    all_goals cases h
    all_goals
      simp [encode, toNat_packNibble, digit, Nat.mod_lt, top]
      omega
  all_goals cases h
  all_goals
    rename_i top
    simp [encode, toNat_packAddress, toNat_packByte, toNat_packNibble, digit, byte, address,
      Nat.mod_lt, top]
    omega

theorem decode_eq_none_iff (w : Word) : decode w = none ↔
    w.toNat / 4096 = 0 ∧ w ≠ 0x00E0 ∧ w ≠ 0x00EE ∨
      w.toNat / 4096 = 8 ∧ 3 < w.toNat % 16 ∨ 14 ≤ w.toNat / 4096 := by
  have hw := w.toNat_lt
  have top : w.toNat / 4096 < 16 := by omega
  have clear : w = 0x00E0 ↔ w.toNat = 0x00E0 := UInt16.toNat_inj.symm
  have ret : w = 0x00EE ↔ w.toNat = 0x00EE := UInt16.toNat_inj.symm
  rw [decode_eq_ofNumber, ofNumber, Ne, Ne, clear, ret]
  generalize w.toNat / 4096 = d at top ⊢
  interval_cases d
  case «0» => by_cases h : w.toNat = 0x00E0 <;> simp [h]
  case «8» =>
    have low : w.toNat % 16 < 16 := Nat.mod_lt _ (by decide)
    generalize w.toNat % 16 = l at low ⊢
    interval_cases l <;> simp
  all_goals simp

theorem decode_eq_decode_iff {w v : Word} (hw : decode w ≠ none) (hv : decode v ≠ none) :
    decode w = decode v ↔ w.canonical = v.canonical := by
  obtain ⟨i, hi⟩ := Option.ne_none_iff_exists'.mp hw
  obtain ⟨j, hj⟩ := Option.ne_none_iff_exists'.mp hv
  constructor
  · intro h
    obtain rfl : i = j := Option.some.inj (hi.symm.trans (h.trans hj))
    exact (encode_of_decode hi).symm.trans (encode_of_decode hj)
  · intro h
    have same : i.encode = j.encode :=
      (encode_of_decode hi).trans (h.trans (encode_of_decode hj).symm)
    calc decode w = decode i.encode := hi.trans (decode_encode (inRange_of_decode hi)).symm
      _ = decode j.encode := congrArg decode same
      _ = decode v := (decode_encode (inRange_of_decode hj)).trans hj.symm

/-- Decoding accepts the words of the format and no others. It gives the instructions in range,
each of which is read back from its word, and forgets of a word at most the ignored digit. -/
theorem decode_exact :
    (∀ w : Word, decode w = none ↔
      w.toNat / 4096 = 0 ∧ w ≠ 0x00E0 ∧ w ≠ 0x00EE ∨
        w.toNat / 4096 = 8 ∧ 3 < w.toNat % 16 ∨ 14 ≤ w.toNat / 4096) ∧
      (∀ w i, decode w = some i → i.InRange ∧ i.encode = w.canonical) ∧
      (∀ i, ((∃ w, decode w = some i) ↔ i.InRange) ∧ (i.InRange → decode i.encode = some i)) ∧
      ∀ w v : Word, decode w ≠ none → decode v ≠ none → (decode w = decode v ↔
        w = v ∨ w.toNat / 4096 = v.toNat / 4096 ∧ (w.toNat / 4096 = 5 ∨ w.toNat / 4096 = 9) ∧
          w.toNat / 256 % 16 = v.toNat / 256 % 16 ∧ w.toNat / 16 % 16 = v.toNat / 16 % 16) := by
  refine ⟨decode_eq_none_iff, ?_, ?_, ?_⟩
  · intro w i h
    exact ⟨inRange_of_decode h, encode_of_decode h⟩
  · intro i
    refine ⟨⟨?_, ?_⟩, decode_encode⟩
    · rintro ⟨w, h⟩
      exact inRange_of_decode h
    · intro h
      exact ⟨i.encode, decode_encode h⟩
  · intro w v hw hv
    exact (decode_eq_decode_iff hw hv).trans (w.canonical_eq_iff v)

end Instruction

end Chip8
