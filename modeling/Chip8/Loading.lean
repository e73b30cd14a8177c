import Chip8.Memory
import Chip8.Record

/-! # Loading programs

An image that is not empty is placed in memory, with records of what was cut and
what was placed. A file is named in a record before it is read.
-/

namespace Chip8

/-- What a file holds, or why it could not be read. -/
abbrev Reading := Except String (Array UInt8)

structure Loading where
  memory : Memory
  result : Except Fault Nat
  records : List Record

namespace Memory

def load (m : Memory) (image : Array UInt8) : Loading :=
  if image.isEmpty then ⟨m, .error .emptyProgram, []⟩
  else
    let placed := fitting image
    ⟨m.place image, .ok placed,
      if placed < image.size then [.truncated image.size placed, .placed placed]
      else [.placed placed]⟩

def loadFile (m : Memory) (path : String) (reading : Reading) : Loading :=
  match reading with
  | .ok image =>
    let l := m.load image
    { l with records := .opening path :: l.records }
  | .error cause => ⟨m, .error (.unreadable path cause), [.opening path]⟩

end Memory

end Chip8
