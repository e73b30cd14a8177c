/-! # Words and their digits

A word of sixteen bits is four hexadecimal digits. A digit reader cuts a word
into consecutive groups of digits from the left and refuses to read past the
fourth one.
-/

namespace Chip8

/-- Sixteen bits: an instruction as it is stored, an address held by the machine. -/
abbrev Word := UInt16

namespace Word

/-- The digits from the one numbered `start` on, counted from one at the left. -/
def digits (w : Word) (start count : Nat) : Word :=
  (w >>> UInt16.ofNat (4 * (5 - start - count))) &&& UInt16.ofNat (1 <<< (4 * count) - 1)

def ofBytes (high low : UInt8) : Word := (high.toUInt16 <<< 8) ||| low.toUInt16

def high (w : Word) : UInt8 := (w >>> 8).toUInt8

def low (w : Word) : UInt8 := w.toUInt8

theorem toNat_ofBytes (high low : UInt8) :
    (ofBytes high low).toNat = 256 * high.toNat + low.toNat := by
  have := high.toNat_lt
  have := low.toNat_lt
  rw [ofBytes, UInt16.toNat_or, UInt16.toNat_shiftLeft, UInt8.toNat_toUInt16, UInt8.toNat_toUInt16]
  simp only [UInt16.reduceToNat, Nat.reduceMod]
  rw [Nat.mod_eq_of_lt (by rw [Nat.shiftLeft_eq]; omega),
    ← Nat.shiftLeft_add_eq_or_of_lt (by simpa), Nat.shiftLeft_eq]
  omega

@[simp] theorem ofBytes_high_low (w : Word) : ofBytes w.high w.low = w := by
  have := w.toNat_lt
  apply UInt16.toNat_inj.mp
  simp [Word.low, Word.high, toNat_ofBytes, Nat.shiftRight_eq_div_pow]
  omega

end Word

inductive Field where
  | identifier
  | register
  | nibble
  | byte
  | address
  deriving DecidableEq, Repr

def Field.width : Field → Nat
  | .identifier | .register | .nibble => 1
  | .byte => 2
  | .address => 3

structure DigitReader where
  word : Word
  next : Nat

namespace DigitReader

/-- Reading in sequence; there is no result when a read runs past the fourth digit. -/
abbrev Read := StateT DigitReader Option

def start (w : Word) : DigitReader := ⟨w, 1⟩

def take (count : Nat) : Read Word := fun r =>
  if r.next + count ≤ 5 then
    some (r.word.digits r.next count, { r with next := r.next + count })
  else
    none

def field (f : Field) : Read Word := take f.width

def smallField (f : Field) : Read UInt8 := return (← field f).toUInt8

/-- The fields of a word in the given order, read from its first digit on. -/
def fields (w : Word) (fs : List Field) : Option (List Word) :=
  (fs.mapM field).run' (start w)

end DigitReader

end Chip8
