import Chip8.Instruction.Code
import Mathlib.Tactic.IntervalCases

/-! # The format of words

A field is a quotient of the word by the digits after it, cut to the field's own
digits. Decoding is therefore a table over quotients and remainders of the word,
and every field of a decoded instruction is in range.
-/

namespace Chip8

theorem Word.toNat_digits (w : Word) {start count : Nat} (hs : 1 ≤ start) (hc : 1 ≤ count)
    (h : start + count ≤ 5) :
    (w.digits start count).toNat = w.toNat / 16 ^ (5 - start - count) % 16 ^ count := by
  have shift : (UInt16.ofNat (4 * (5 - start - count))).toNat = 4 * (5 - start - count) :=
    UInt16.toNat_ofNat_of_lt' (Nat.lt_of_le_of_lt (by omega : _ ≤ 20) (by decide))
  have mask : (UInt16.ofNat (1 <<< (4 * count) - 1)).toNat = 2 ^ (4 * count) - 1 := by
    have := Nat.pow_le_pow_right (n := 2) (by decide) (show 4 * count ≤ 16 by omega)
    rw [Nat.one_shiftLeft, UInt16.toNat_ofNat', Nat.mod_eq_of_lt (by omega)]
  rw [digits, UInt16.toNat_and, UInt16.toNat_shiftRight, shift, mask,
    Nat.mod_eq_of_lt (by omega), Nat.shiftRight_eq_div_pow, Nat.and_two_pow_sub_one_eq_mod,
    Nat.pow_mul, Nat.pow_mul]

theorem Field.width_pos (f : Field) : 1 ≤ f.width := by
  cases f <;> decide

namespace DigitReader

variable {m : Type → Type} [Monad m]

/-- A reader of fields in some monad cuts a word as long as a field ends in it. -/
def Cuts (field : Field → StateT DigitReader m Word) (w : Word) : Prop :=
  ∀ (f : Field) (next : Nat), 1 ≤ next → next + f.width ≤ 5 →
    field f ⟨w, next⟩ = pure (w.digits next f.width, ⟨w, next + f.width⟩)

theorem cuts_field (w : Word) : Cuts field w := fun _ _ _ hf => if_pos hf

theorem Cuts.run {field : Field → StateT DigitReader m Word} {w : Word} (h : Cuts field w)
    (f : Field) {next : Nat} (hn : 1 ≤ next) (hf : next + f.width ≤ 5) :
    (field f).run ⟨w, next⟩ =
      pure (.ofNat (w.toNat / 16 ^ (5 - next - f.width) % 16 ^ f.width), ⟨w, next + f.width⟩) := by
  rw [← Word.toNat_digits w hn f.width_pos hf, UInt16.ofNat_toNat]
  exact h f next hn hf

end DigitReader

namespace Instruction

open DigitReader

/-- The instruction of the word with a given number, digit by digit. -/
def ofNumber (w : Nat) : Option Instruction :=
  let x : UInt8 := .ofNat (w / 256 % 16)
  let y : UInt8 := .ofNat (w / 16 % 16)
  let n : UInt8 := .ofNat (w % 16)
  let k : UInt8 := .ofNat (w % 256)
  let a : Word := .ofNat (w % 4096)
  match w / 4096 with
  | 0x0 =>
    if w = 0x00E0 then some clearScreen
    else if w = 0x00EE then some ret
    else none
  | 0x1 => some (jump a)
  | 0x2 => some (call a)
  | 0x3 => some (skip .equal x (.byte k))
  | 0x4 => some (skip .notEqual x (.byte k))
  | 0x5 => some (skip .equal x (.register y))
  | 0x6 => some (load x k)
  | 0x7 => some (add x k)
  | 0x8 =>
    match w % 16 with
    | 0x0 => some (combine .copy x y)
    | 0x1 => some (combine .or x y)
    | 0x2 => some (combine .and x y)
    | 0x3 => some (combine .xor x y)
    | _ => none
  | 0x9 => some (skip .notEqual x (.register y))
  | 0xA => some (loadIndex a)
  | 0xB => some (jumpOffset a)
  | 0xC => some (random x k)
  | 0xD => some (draw x y n)
  | _ => none

section Table

variable {m : Type → Type} [Monad m]

/-- The table of instructions over any reader of fields. -/
def readWith (field : Field → StateT DigitReader m Word) :
    StateT DigitReader m (Option Instruction) := do
  let small (f : Field) : StateT DigitReader m UInt8 := return (← field f).toUInt8
  let w := (← get).word
  match ← small .identifier with
  | 0x0 =>
    if w = 0x00E0 then return some clearScreen
    else if w = 0x00EE then return some ret
    else return none
  | 0x1 => return some (jump (← field .address))
  | 0x2 => return some (call (← field .address))
  | 0x3 => return some (skip .equal (← small .register) (.byte (← small .byte)))
  | 0x4 => return some (skip .notEqual (← small .register) (.byte (← small .byte)))
  | 0x5 => return some (skip .equal (← small .register) (.register (← small .register)))
  | 0x6 => return some (load (← small .register) (← small .byte))
  | 0x7 => return some (add (← small .register) (← small .byte))
  | 0x8 =>
    let x ← small .register
    let y ← small .register
    match ← small .nibble with
    | 0x0 => return some (combine .copy x y)
    | 0x1 => return some (combine .or x y)
    | 0x2 => return some (combine .and x y)
    | 0x3 => return some (combine .xor x y)
    | _ => return none
  | 0x9 => return some (skip .notEqual (← small .register) (.register (← small .register)))
  | 0xA => return some (loadIndex (← field .address))
  | 0xB => return some (jumpOffset (← field .address))
  | 0xC => return some (random (← small .register) (← small .byte))
  | 0xD => return some (draw (← small .register) (← small .register) (← small .nibble))
  | _ => return none

theorem read_eq_readWith : read = readWith DigitReader.field := rfl

theorem run'_readWith [LawfulMonad m] {field : Field → StateT DigitReader m Word} {w : Word}
    (h : Cuts field w) : (readWith field).run' (start w) = pure (ofNumber w.toNat) := by
  have identifier : (field .identifier).run ⟨w, 1⟩ = pure (.ofNat (w.toNat / 4096), ⟨w, 2⟩) := by
    have hd : w.toNat / 4096 % 16 = w.toNat / 4096 :=
      Nat.mod_eq_of_lt (by have := w.toNat_lt; omega)
    simpa [Field.width, hd] using h.run .identifier (by decide : 1 ≤ 1) (by decide)
  have x : (field .register).run ⟨w, 2⟩ = pure (.ofNat (w.toNat / 256 % 16), ⟨w, 3⟩) :=
    h.run .register (by decide) (by decide)
  have y : (field .register).run ⟨w, 3⟩ = pure (.ofNat (w.toNat / 16 % 16), ⟨w, 4⟩) :=
    h.run .register (by decide) (by decide)
  have n : (field .nibble).run ⟨w, 4⟩ = pure (.ofNat (w.toNat % 16), ⟨w, 5⟩) := by
    simpa [Field.width] using h.run .nibble (by decide : 1 ≤ 4) (by decide)
  have k : (field .byte).run ⟨w, 3⟩ = pure (.ofNat (w.toNat % 256), ⟨w, 5⟩) := by
    simpa [Field.width] using h.run .byte (by decide : 1 ≤ 3) (by decide)
  have a : (field .address).run ⟨w, 2⟩ = pure (.ofNat (w.toNat % 4096), ⟨w, 5⟩) := by
    simpa [Field.width] using h.run .address (by decide : 1 ≤ 2) (by decide)
  have hw := w.toNat_lt
  have hd : w.toNat / 4096 < 16 := by omega
  simp only [readWith, start, StateT.run'_eq, StateT.run_bind, StateT.run_get, pure_bind, bind_assoc,
    identifier, ofNumber]
  generalize w.toNat / 4096 = d at *
  -- two of the arms look further: 0 at the whole word and 8 at the last digit
  interval_cases d
  case «0» =>
    have number (c : Nat) (hc : c < 65536) : w = UInt16.ofNat c ↔ w.toNat = c := by
      rw [← UInt16.toNat_inj, UInt16.toNat_ofNat', Nat.mod_eq_of_lt hc]
    simp only [← number 0xE0 (by decide), ← number 0xEE (by decide)]
    by_cases h : w = 0xE0
    · simp [h]
    · by_cases h' : w = 0xEE
      · simp [h']
      · simp [h, h']
  case «8» =>
    have hl : w.toNat % 16 < 16 := Nat.mod_lt _ (by decide)
    simp [x, y, n]
    generalize w.toNat % 16 = l at *
    interval_cases l <;> simp
  all_goals simp [x, y, n, k, a]

end Table

/-- Decoding is the table over the word's number. -/
theorem decode_eq_ofNumber (w : Word) : decode w = ofNumber w.toNat := by
  rw [decode, read_eq_readWith, run'_readWith (cuts_field w)]
  rfl

theorem toNat_digit (m : Nat) : (UInt8.ofNat (m % 16)).toNat = m % 16 :=
  UInt8.toNat_ofNat_of_lt' (Nat.lt_trans (Nat.mod_lt m (by decide)) (by decide))

theorem toNat_address (m : Nat) : (UInt16.ofNat (m % 4096)).toNat = m % 4096 :=
  UInt16.toNat_ofNat_of_lt' (Nat.lt_trans (Nat.mod_lt m (by decide)) (by decide))

theorem inRange_of_ofNumber {w : Nat} {i : Instruction} (h : ofNumber w = some i) :
    i.InRange := by
  have digit (m : Nat) : UInt8.ofNat (m % 16) < 16 := by
    rw [UInt8.lt_iff_toNat_lt, toNat_digit]
    exact Nat.mod_lt m (by decide)
  have address : UInt16.ofNat (w % 4096) < 4096 := by
    rw [UInt16.lt_iff_toNat_lt, toNat_address]
    exact Nat.mod_lt w (by decide)
  unfold ofNumber at h
  split at h
  all_goals repeat' split at h
  all_goals cases h
  all_goals simp [InRange, Operand.InRange, digit, address]

theorem inRange_of_decode {w : Word} {i : Instruction} (h : decode w = some i) : i.InRange :=
  inRange_of_ofNumber (decode_eq_ofNumber w ▸ h)

end Instruction

end Chip8
