import Chip8.Fault
import Chip8.Instruction.Basic

/-! # Records

What happens is recorded as events. Each has a level, the part of the program
that reports it, and a text; a threshold lets through what is at least as severe.
-/

namespace Chip8

inductive Level where
  | error
  | warn
  | info
  | debug
  | trace
  deriving DecidableEq, Repr

namespace Level

def rank : Level → Nat
  | error => 1
  | warn => 2
  | info => 3
  | debug => 4
  | trace => 5

def name : Level → String
  | error => "ERROR"
  | warn => "WARN"
  | info => "INFO"
  | debug => "DEBUG"
  | trace => "TRACE"

/-- The threshold that a setting names: records of information and worse unless it says
otherwise, and none at all if it is off. -/
def threshold? : Option String → Option Level
  | some "off" => none
  | some "error" => some error
  | some "warn" => some warn
  | some "debug" => some debug
  | some "trace" => some trace
  | _ => some info

def passes (threshold? : Option Level) (l : Level) : Bool :=
  match threshold? with
  | some threshold => l.rank ≤ threshold.rank
  | none => false

end Level

inductive Record where
  | opening (path : String)
  | truncated (size kept : Nat)
  | placed (count : Nat)
  | executing (pc : Word) (instruction : Instruction)
  | loaded (path : String) (count : Nat)
  | cannotStart (fault : Fault)
  | failed (fault : Fault)
  | stopped (cause : String)
  | closed
  deriving DecidableEq, Repr

namespace Record

def level : Record → Level
  | opening _ | placed _ => .debug
  | truncated _ _ => .warn
  | executing _ _ => .trace
  | loaded _ _ | closed => .info
  | cannotStart _ | failed _ | stopped _ => .error

def target : Record → String
  | opening _ | truncated _ _ | placed _ => "chipvm::memory"
  | executing _ _ => "chipvm::emulator"
  | loaded _ _ | cannotStart _ | failed _ | stopped _ | closed => "chipvm"

def text : Record → String
  | opening path => "opening '" ++ path ++ "'"
  | truncated size kept =>
    "program is " ++ toString size ++ " bytes, truncated to the " ++ toString kept ++
      " bytes available"
  | placed count => "loaded " ++ toString count ++ " bytes at 0x200"
  | executing pc i => "0x" ++ Hexadecimal.numeral 3 pc.toNat ++ ": " ++ i.mnemonic
  | loaded path count => "loaded '" ++ path ++ "' (" ++ toString count ++ " bytes)"
  | cannotStart fault => "cannot start: " ++ fault.report
  | failed fault => fault.report
  | stopped cause => cause
  | closed => "window closed"

/-- The record of the fault that ended the program; after one of loading nothing has started. -/
def ofFault (f : Fault) : Record := if f.isLoading then cannotStart f else failed f

def visible (threshold? : Option Level) (records : List Record) : List Record :=
  records.filter fun r => r.level.passes threshold?

end Record

end Chip8
