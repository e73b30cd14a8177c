import Chip8.Proofs.Instruction.Format

/-! # Guarded arithmetic and words

Arithmetic in a number of bits that looks first whether its result fits, and traps if it
does not. Cutting a word into digits and decoding it never traps: the digits that are
asked for are always there.
-/

namespace Chip8

/-- What a guard is there to stop. -/
inductive Trap where
  | overflow
  | underflow
  | shift
  | index
  | copy
  | digits
  deriving DecidableEq, Repr

/-- A result, or the trap that came before it. -/
abbrev Guarded := Except Trap

namespace Guarded

section Results

variable {α β : Type}

@[simp] theorem pure_eq_ok (a : α) : (pure a : Guarded α) = .ok a := rfl

@[simp] theorem ok_bind (a : α) (f : α → Guarded β) : (Except.ok a >>= f) = f a := rfl

end Results

section Arithmetic

variable {bits a b k : Nat}

def add (bits a b : Nat) : Guarded Nat :=
  if a + b < 2 ^ bits then .ok (a + b) else .error .overflow

def mul (bits a b : Nat) : Guarded Nat :=
  if a * b < 2 ^ bits then .ok (a * b) else .error .overflow

def sub (a b : Nat) : Guarded Nat := if b ≤ a then .ok (a - b) else .error .underflow

/-- A shift drops the bits that leave the number, but it has to leave some in it. -/
def shiftLeft (bits a k : Nat) : Guarded Nat :=
  if k < bits then .ok (a <<< k % 2 ^ bits) else .error .shift

def shiftRight (bits a k : Nat) : Guarded Nat :=
  if k < bits then .ok (a >>> k) else .error .shift

theorem add_eq_ok (h : a + b < 2 ^ bits) : add bits a b = .ok (a + b) := if_pos h

theorem mul_eq_ok (h : a * b < 2 ^ bits) : mul bits a b = .ok (a * b) := if_pos h

theorem sub_eq_ok (h : b ≤ a) : sub a b = .ok (a - b) := if_pos h

theorem shiftLeft_eq_ok (h : k < bits) : shiftLeft bits a k = .ok (a <<< k % 2 ^ bits) := if_pos h

theorem shiftRight_eq_ok (h : k < bits) : shiftRight bits a k = .ok (a >>> k) := if_pos h

end Arithmetic

def digits (w : Word) (start count : Nat) : Guarded Word := do
  let places ← mul 8 (← sub (← sub 4 count) (← sub start 1)) 4
  let mask ← sub (← shiftLeft 32 1 (← mul 8 count 4)) 1
  return .ofNat (← shiftRight 16 w.toNat places) &&& .ofNat mask

abbrev Read := StateT DigitReader Guarded

def take (count : Nat) : Read Word := fun r => do
  if 5 < (← add 8 r.next count) then throw .digits
  let found ← digits r.word r.next count
  return (found, { r with next := ← add 8 r.next count })

def field (f : Field) : Read Word := take f.width

def decode (w : Word) : Guarded (Option Instruction) :=
  (Instruction.readWith field).run' (DigitReader.start w)

theorem digits_eq (w : Word) {start count : Nat} (hs : 1 ≤ start) (hc : 1 ≤ count)
    (h : start + count ≤ 5) : digits w start count = .ok (w.digits start count) := by
  have places : (4 - count - (start - 1)) * 4 = 4 * (5 - start - count) := by omega
  have width : 4 * count ≤ 16 := by omega
  have mask : 1 <<< (count * 4) % 2 ^ 32 = 2 ^ (4 * count) := by
    have fits := Nat.pow_lt_pow_right (a := 2) (by decide) (show 4 * count < 32 by omega)
    rw [Nat.one_shiftLeft, Nat.mul_comm, Nat.mod_eq_of_lt fits]
  have positive : 1 ≤ 2 ^ (4 * count) := Nat.two_pow_pos _
  simp only [digits, sub_eq_ok (show count ≤ 4 by omega), sub_eq_ok hs,
    sub_eq_ok (show start - 1 ≤ 4 - count by omega),
    mul_eq_ok (show (4 - count - (start - 1)) * 4 < 2 ^ 8 by omega),
    mul_eq_ok (show count * 4 < 2 ^ 8 by omega),
    shiftLeft_eq_ok (show count * 4 < 32 by omega), mask, sub_eq_ok positive, places,
    shiftRight_eq_ok (show 4 * (5 - start - count) < 16 by omega), ok_bind, pure_eq_ok]
  have fits := Nat.pow_le_pow_right (n := 2) (by decide) width
  have ends : (UInt16.ofNat (2 ^ (4 * count) - 1)).toNat = 2 ^ (4 * count) - 1 := by
    rw [UInt16.toNat_ofNat', Nat.mod_eq_of_lt (by omega)]
  have kept : (UInt16.ofNat (w.toNat >>> (4 * (5 - start - count)))).toNat =
      w.toNat >>> (4 * (5 - start - count)) := by
    have := w.toNat_lt
    have := Nat.shiftRight_le w.toNat (4 * (5 - start - count))
    rw [UInt16.toNat_ofNat', Nat.mod_eq_of_lt (by omega)]
  rw [Except.ok.injEq, ← UInt16.toNat_inj, Word.toNat_digits w hs hc h, UInt16.toNat_and, ends,
    kept, Nat.and_two_pow_sub_one_eq_mod, Nat.shiftRight_eq_div_pow, Nat.pow_mul, Nat.pow_mul]

theorem cuts_field (w : Word) : DigitReader.Cuts field w := by
  intro f next hn hf
  simp [field, take, add_eq_ok (show next + f.width < 2 ^ 8 by omega), Nat.not_lt.mpr hf,
    digits_eq w hn f.width_pos hf]

theorem decode_eq (w : Word) : decode w = .ok (Instruction.decode w) := by
  rw [decode, Instruction.run'_readWith (cuts_field w), Instruction.decode_eq_ofNumber]
  rfl

end Guarded

end Chip8
