/-! # Hexadecimal numerals

Numbers are written in base sixteen with capital letters, the most significant
digit first, and padded with zeros on the left to a least width.
-/

namespace Chip8.Hexadecimal

def alphabet : List Char :=
  ['0', '1', '2', '3', '4', '5', '6', '7', '8', '9', 'A', 'B', 'C', 'D', 'E', 'F']

/-- The digit of the value modulo sixteen. -/
def digit (n : Nat) : Char := alphabet.getD (n % 16) '0'

def lastDigits : Nat → Nat → List Char
  | 0, _ => []
  | width + 1, n => lastDigits width (n / 16) ++ [digit n]

/-- How many digits a number has; zero has one. -/
def size (n : Nat) : Nat := n.log2 / 4 + 1

def padded (width n : Nat) : List Char := lastDigits (max width (size n)) n

def numeral (width n : Nat) : String := String.ofList (padded width n)

theorem length_lastDigits (width n : Nat) : (lastDigits width n).length = width := by
  induction width generalizing n with
  | zero => rfl
  | succ width ih => simp [lastDigits, ih]

theorem shiftRight_size (n : Nat) : n >>> (4 * size n) = 0 := by
  have h : n < 2 ^ (n.log2 + 1) := Nat.lt_log2_self
  rw [Nat.shiftRight_eq_div_pow]
  apply Nat.div_eq_of_lt
  exact Nat.lt_of_lt_of_le h (Nat.pow_le_pow_right (by decide) (by unfold size; omega))

theorem size_le {width n : Nat} (hw : 0 < width) (h : n < 1 <<< (4 * width)) :
    size n ≤ width := by
  have bits : n < 2 ^ (4 * width) := by rwa [← Nat.one_shiftLeft]
  have log : n.log2 < 4 * width := by
    rcases Nat.eq_zero_or_pos n with rfl | hn
    · rw [Nat.log2_zero]
      omega
    · exact (Nat.log2_lt (Nat.ne_of_gt hn)).mpr bits
  unfold size
  omega

theorem numeral_of_lt {width n : Nat} (hw : 0 < width) (h : n < 1 <<< (4 * width)) :
    numeral width n = String.ofList (lastDigits width n) := by
  rw [numeral, padded, Nat.max_eq_left (size_le hw h)]

end Chip8.Hexadecimal
