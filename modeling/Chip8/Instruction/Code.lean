import Chip8.Instruction.Basic

/-! # Instructions as words

Decoding reads the fields of a word from the left, the first digit telling what
follows. Encoding packs the fields of an instruction in range; a comparison of
two registers does not use its last digit, which is written as zero.
-/

namespace Chip8.Instruction

open DigitReader

/-- The instruction that a reader at its first digit holds, if the word has one. -/
def read : Read (Option Instruction) := do
  let w := (← get).word
  match ← smallField .identifier with
  | 0x0 =>
    if w = 0x00E0 then return some clearScreen
    else if w = 0x00EE then return some ret
    else return none
  | 0x1 => return some (jump (← field .address))
  | 0x2 => return some (call (← field .address))
  | 0x3 => return some (skip .equal (← smallField .register) (.byte (← smallField .byte)))
  | 0x4 => return some (skip .notEqual (← smallField .register) (.byte (← smallField .byte)))
  | 0x5 => return some (skip .equal (← smallField .register) (.register (← smallField .register)))
  | 0x6 => return some (load (← smallField .register) (← smallField .byte))
  | 0x7 => return some (add (← smallField .register) (← smallField .byte))
  | 0x8 =>
    let x ← smallField .register
    let y ← smallField .register
    match ← smallField .nibble with
    | 0x0 => return some (combine .copy x y)
    | 0x1 => return some (combine .or x y)
    | 0x2 => return some (combine .and x y)
    | 0x3 => return some (combine .xor x y)
    | _ => return none
  | 0x9 =>
    return some (skip .notEqual (← smallField .register) (.register (← smallField .register)))
  | 0xA => return some (loadIndex (← field .address))
  | 0xB => return some (jumpOffset (← field .address))
  | 0xC => return some (random (← smallField .register) (← smallField .byte))
  | 0xD =>
    return some (draw (← smallField .register) (← smallField .register) (← smallField .nibble))
  | _ => return none

def decode (w : Word) : Option Instruction := (read.run' (start w)).join

def packAddress (identifier : Word) (a : Word) : Word := identifier <<< 12 ||| a

def packByte (identifier : Word) (x k : UInt8) : Word :=
  identifier <<< 12 ||| x.toUInt16 <<< 8 ||| k.toUInt16

def packNibble (identifier : Word) (x y n : UInt8) : Word :=
  identifier <<< 12 ||| x.toUInt16 <<< 8 ||| y.toUInt16 <<< 4 ||| n.toUInt16

def encode : Instruction → Word
  | clearScreen => 0x00E0
  | ret => 0x00EE
  | jump a => packAddress 0x1 a
  | call a => packAddress 0x2 a
  | skip .equal x (.byte k) => packByte 0x3 x k
  | skip .notEqual x (.byte k) => packByte 0x4 x k
  | skip .equal x (.register y) => packNibble 0x5 x y 0
  | skip .notEqual x (.register y) => packNibble 0x9 x y 0
  | load x k => packByte 0x6 x k
  | add x k => packByte 0x7 x k
  | combine .copy x y => packNibble 0x8 x y 0
  | combine .or x y => packNibble 0x8 x y 1
  | combine .and x y => packNibble 0x8 x y 2
  | combine .xor x y => packNibble 0x8 x y 3
  | loadIndex a => packAddress 0xA a
  | jumpOffset a => packAddress 0xB a
  | random x k => packByte 0xC x k
  | draw x y n => packNibble 0xD x y n

/-- The bytes of a program, two for each instruction, the high one first. -/
def assemble (program : List Instruction) : List UInt8 :=
  program.flatMap fun i => [i.encode.high, i.encode.low]

end Chip8.Instruction
