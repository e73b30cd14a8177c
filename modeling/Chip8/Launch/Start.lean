import Chip8.Launch.Arguments
import Chip8.Loading
import Chip8.Machine.Basic

/-! # Starting a program

A start loads the named program into a fresh machine and records how that went.
Without a program in memory there is no machine to run.
-/

namespace Chip8.Launch

structure Start where
  machine? : Option Machine
  records : List Record

def start (random : RandomSource) (path : String) (reading : Reading) : Start :=
  let m := Machine.fresh random
  let l := m.memory.loadFile path reading
  match l.result with
  | .ok count => ⟨some { m with memory := l.memory }, l.records ++ [.loaded path count]⟩
  | .error f => ⟨none, l.records ++ [.ofFault f]⟩

/-- The exit status of a start that leads to no machine. -/
def Start.status? (s : Start) : Option UInt8 :=
  match s.machine? with
  | some _ => none
  | none => some 1

end Chip8.Launch
