import Chip8.Text.Hexadecimal
import Chip8.Word

/-! # Instructions

The instructions of the machine, the ranges of their fields as a stored word
can hold them, and their mnemonics.
-/

namespace Chip8

/-- When a conditional skip skips. -/
inductive Comparison where
  | equal
  | notEqual
  deriving DecidableEq, Repr

/-- What a register is compared with. -/
inductive Operand where
  | byte (value : UInt8)
  | register (number : UInt8)
  deriving DecidableEq, Repr

/-- How the second register enters the first. -/
inductive Combination where
  | copy
  | or
  | and
  | xor
  deriving DecidableEq, Repr

inductive Instruction where
  | clearScreen
  | ret
  | jump (target : Word)
  | call (target : Word)
  | skip (comparison : Comparison) (x : UInt8) (operand : Operand)
  | load (x value : UInt8)
  | add (x value : UInt8)
  | combine (combination : Combination) (x y : UInt8)
  | loadIndex (address : Word)
  | jumpOffset (base : Word)
  | random (x mask : UInt8)
  | draw (x y rows : UInt8)
  deriving DecidableEq, Repr

namespace Comparison

def holds : Comparison → UInt8 → UInt8 → Bool
  | equal, a, b => a == b
  | notEqual, a, b => a != b

def mnemonic : Comparison → String
  | equal => "SE"
  | notEqual => "SNE"

end Comparison

namespace Combination

def apply : Combination → UInt8 → UInt8 → UInt8
  | copy, _, b => b
  | or, a, b => a ||| b
  | and, a, b => a &&& b
  | xor, a, b => a ^^^ b

def mnemonic : Combination → String
  | copy => "LD"
  | or => "OR"
  | and => "AND"
  | xor => "XOR"

end Combination

namespace Operand

def InRange : Operand → Prop
  | byte _ => True
  | register y => y < 16

instance : DecidablePred InRange
  | byte _ => inferInstanceAs (Decidable True)
  | register y => inferInstanceAs (Decidable (y < 16))

end Operand

namespace Instruction

/-- The fields fit the digits that a word has for them. -/
def InRange : Instruction → Prop
  | clearScreen | ret => True
  | jump a | call a | loadIndex a | jumpOffset a => a < 4096
  | skip _ x o => x < 16 ∧ o.InRange
  | load x _ | add x _ | random x _ => x < 16
  | combine _ x y => x < 16 ∧ y < 16
  | draw x y n => x < 16 ∧ y < 16 ∧ n < 16

instance : DecidablePred InRange := fun i => by
  cases i <;> unfold InRange <;> infer_instance

def registerText (x : UInt8) : String := "V" ++ Hexadecimal.numeral 1 x.toNat

def byteText (k : UInt8) : String := "0x" ++ Hexadecimal.numeral 2 k.toNat

def addressText (a : Word) : String := "0x" ++ Hexadecimal.numeral 3 a.toNat

def operandText : Operand → String
  | .byte k => byteText k
  | .register y => registerText y

def mnemonic : Instruction → String
  | clearScreen => "CLS"
  | ret => "RET"
  | jump a => "JP " ++ addressText a
  | call a => "CALL " ++ addressText a
  | skip c x o => c.mnemonic ++ " " ++ registerText x ++ ", " ++ operandText o
  | load x k => "LD " ++ registerText x ++ ", " ++ byteText k
  | add x k => "ADD " ++ registerText x ++ ", " ++ byteText k
  | combine c x y => c.mnemonic ++ " " ++ registerText x ++ ", " ++ registerText y
  | loadIndex a => "LD I, " ++ addressText a
  | jumpOffset a => "JP V0, " ++ addressText a
  | random x k => "RND " ++ registerText x ++ ", " ++ byteText k
  | draw x y n => "DRW " ++ registerText x ++ ", " ++ registerText y ++ ", " ++ toString n.toNat

end Instruction

end Chip8
