import Chip8.Text.Hexadecimal
import Mathlib.Algebra.Group.Nat.Defs

/-! # Reading numerals

The value of a numeral is found again digit by digit, however many zeros stand in
front. Its digits are letters or decimal digits, so that a numeral ends where a text
goes on with anything else.
-/

namespace Chip8.Hexadecimal

def value (digits : List Char) : Nat :=
  digits.foldl (fun n c => 16 * n + alphabet.idxOf c) 0

theorem value_concat (digits : List Char) (c : Char) :
    value (digits ++ [c]) = 16 * value digits + alphabet.idxOf c := by
  rw [value, List.foldl_append, List.foldl_cons, List.foldl_nil, value]

theorem digit_cases (n : Nat) : digit n ∈ alphabet ∧ alphabet.idxOf (digit n) = n % 16 := by
  have all : ∀ d < 16, alphabet.getD d '0' ∈ alphabet ∧
      alphabet.idxOf (alphabet.getD d '0') = d := by decide
  exact all (n % 16) (Nat.mod_lt n (by decide))

/-- A digit as the character of its code, the capitals following on the decimal digits. -/
def capital (d : Nat) : Char := .ofNat (if d < 10 then 48 + d else 65 + (d - 10))

theorem digit_eq_capital (n : Nat) : digit n = capital (n % 16) := by
  have all : ∀ d < 16, alphabet.getD d '0' = capital d := by decide
  exact all (n % 16) (Nat.mod_lt n (by decide))

theorem capital_inj {d e : Nat} (hd : d < 16) (he : e < 16) (h : capital d = capital e) :
    d = e := by
  have all : ∀ d < 16, ∀ e < 16, capital d = capital e → d = e := by decide
  exact all d hd e he h

theorem value_lastDigits (width n : Nat) : value (lastDigits width n) = n % 16 ^ width := by
  induction width generalizing n with
  | zero => rw [Nat.pow_zero, Nat.mod_one]; rfl
  | succ width ih =>
    rw [lastDigits, value_concat, ih, (digit_cases n).2, Nat.pow_succ', Nat.mod_mul, Nat.add_comm]

theorem lastDigits_add (high low n : Nat) :
    lastDigits (high + low) n = lastDigits high (n / 16 ^ low) ++ lastDigits low n := by
  induction low generalizing n with
  | zero => simp [lastDigits]
  | succ low ih =>
    rw [← Nat.add_assoc, lastDigits, ih, lastDigits, Nat.div_div_eq_div_mul, ← Nat.pow_succ',
      List.append_assoc]

theorem lastDigits_mod (width n : Nat) :
    lastDigits width (n % 16 ^ width) = lastDigits width n := by
  induction width generalizing n with
  | zero => rfl
  | succ width ih =>
    rw [lastDigits, lastDigits, Nat.pow_succ', Nat.mod_mul_right_div_self, ih, digit, digit,
      Nat.mod_mul_right_mod]

theorem lt_pow_size (n : Nat) : n < 16 ^ size n := by
  have none_left := shiftRight_size n
  rw [Nat.shiftRight_eq_div_pow, Nat.pow_mul] at none_left
  exact Nat.lt_of_div_eq_zero (Nat.pow_pos (by decide)) none_left

theorem value_padded (width n : Nat) : value (padded width n) = n := by
  rw [padded, value_lastDigits]
  apply Nat.mod_eq_of_lt
  exact Nat.lt_of_lt_of_le (lt_pow_size n) (Nat.pow_le_pow_right (by decide) (Nat.le_max_right ..))

theorem all_isAlphanum_lastDigits (width n : Nat) :
    (lastDigits width n).all Char.isAlphanum = true := by
  have alphabetic : alphabet.all Char.isAlphanum = true := by decide
  induction width generalizing n with
  | zero => rfl
  | succ width ih =>
    have last := List.all_eq_true.mp alphabetic _ (digit_cases n).1
    simp [lastDigits, ih, last]

theorem all_isAlphanum_numeral (width n : Nat) :
    (numeral width n).toList.all Char.isAlphanum = true := by
  rw [numeral, String.toList_ofList]
  exact all_isAlphanum_lastDigits _ _

end Chip8.Hexadecimal
