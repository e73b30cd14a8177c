import Chip8.Machine.Basic
import Chip8.Record

/-! # Steps

A step fetches the word at the program counter, decodes it and executes the
instruction. Any failure halts the machine for good. What is decoded is
recorded before it is executed.
-/

namespace Chip8

inductive StepError where
  | fault (fault : Fault)
  | unknownInstruction (opcode pc : Word)
  | halted
  deriving DecidableEq, Repr

def StepError.message : StepError → String
  | fault f => f.message
  | unknownInstruction opcode pc =>
    "unknown instruction 0x" ++ Hexadecimal.numeral 4 opcode.toNat ++
      " at PC=0x" ++ Hexadecimal.numeral 4 pc.toNat
  | halted => "processor is halted after a fatal error"

namespace Machine

def fetch (m : Machine) : Except StepError Instruction :=
  match m.memory.readWord m.pc.toUInt64 with
  | .error f => .error (.fault f)
  | .ok w =>
    match Instruction.decode w with
    | some i => .ok i
    | none => .error (.unknownInstruction w m.pc)

structure Cycle where
  machine : Machine
  result : Except StepError Unit
  records : List Record

def step (m : Machine) : Cycle :=
  if m.halted then ⟨m, .error .halted, []⟩
  else match m.fetch with
    | .error e => ⟨{ m with halted := true }, .error e, []⟩
    | .ok i =>
      match m.execute i with
      | (next, .ok ()) => ⟨next, .ok (), [.executing m.pc i]⟩
      | (next, .error f) => ⟨{ next with halted := true }, .error (.fault f), [.executing m.pc i]⟩

/-- Consecutive steps, going on after failures. -/
def steps (m : Machine) : Nat → List Cycle
  | 0 => []
  | n + 1 =>
    let c := m.step
    c :: c.machine.steps n

def after (m : Machine) : Nat → Machine
  | 0 => m
  | n + 1 => m.step.machine.after n

/-- Steps up to a number of successes or the first failure. -/
structure Run where
  machine : Machine
  successes : Nat
  error? : Option StepError
  records : List Record

/-- Goes on with a run of which some steps are made and their records are kept in reverse. -/
def runFrom (m : Machine) (successes : Nat) (records : List Record) : Nat → Run
  | 0 => ⟨m, successes, none, records.reverse⟩
  | n + 1 =>
    let c := m.step
    match c.result with
    | .ok () => c.machine.runFrom (successes + 1) (c.records.reverse ++ records) n
    | .error e => ⟨c.machine, successes, some e, (c.records.reverse ++ records).reverse⟩

def run (m : Machine) (n : Nat) : Run := m.runFrom 0 [] n

end Machine

end Chip8
