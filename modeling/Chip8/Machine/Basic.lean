import Chip8.CallStack
import Chip8.Instruction.Code
import Chip8.Random.Source
import Chip8.Registers
import Chip8.Screen

/-! # The machine

Its state, the program counter's moves, and what each instruction does. What an
instruction has done before it fails stays done.
-/

namespace Chip8

structure Machine where
  screen : Screen
  registers : Registers
  memory : Memory
  stack : CallStack
  pc : Word
  index : Word
  halted : Bool
  random : RandomSource
  deriving DecidableEq

namespace Machine

def fresh (random : RandomSource) : Machine where
  screen := .blank
  registers := .zero
  memory := .zero
  stack := .empty
  pc := Memory.programStart
  index := 0
  halted := false
  random := random

def ofSeed (seed : UInt64) : Machine := fresh (.ofSeed seed)

/-- The machine after an action, and whether the action succeeded. -/
abbrev Outcome := Machine × Except Fault Unit

/-- The program counter only takes addresses in memory. -/
def moveTo (m : Machine) (a : Address) : Outcome :=
  if a.toNat < 4096 then ({ m with pc := a.toUInt16 }, .ok ()) else (m, .error (.outOfBounds a))

def advance (m : Machine) (skip : Bool) : Outcome :=
  m.moveTo (m.pc.toUInt64 + if skip then 4 else 2)

def assign (m : Machine) (x value : UInt8) : Outcome :=
  { m with registers := m.registers.set x value }.advance false

def operandValue (m : Machine) : Operand → UInt8
  | .byte k => k
  | .register y => m.registers.get y

def execute (m : Machine) : Instruction → Outcome
  | .clearScreen => { m with screen := .blank }.advance false
  | .ret =>
    match m.stack.pop with
    | .ok (a, rest) => { m with stack := rest }.moveTo a.toUInt64
    | .error f => (m, .error f)
  | .jump a => m.moveTo a.toUInt64
  | .call a =>
    match m.stack.push (m.pc + 2) with
    | .ok pushed => { m with stack := pushed }.moveTo a.toUInt64
    | .error f => (m, .error f)
  | .skip c x o => m.advance (c.holds (m.registers.get x) (m.operandValue o))
  | .load x k => m.assign x k
  | .add x k => m.assign x (m.registers.get x + k)
  | .combine c x y => m.assign x (c.apply (m.registers.get x) (m.registers.get y))
  | .loadIndex a => { m with index := a }.advance false
  | .jumpOffset a => m.moveTo (a.toUInt64 + (m.registers.get 0).toUInt64)
  | .random x mask =>
    let (b, next) := m.random.draw
    { m with random := next }.assign x (mask &&& b)
  | .draw x y rows =>
    let (drawn, result) :=
      m.screen.paint m.memory (m.registers.get x) (m.registers.get y) m.index.toUInt64 rows
    match result with
    | .ok collision => { m with screen := drawn }.assign 0xF collision.toUInt8
    | .error f => ({ m with screen := drawn }, .error f)

end Machine

end Chip8
