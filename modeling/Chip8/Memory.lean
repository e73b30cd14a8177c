import Chip8.Fault
import Chip8.Word

/-! # Memory

Four kilobytes, read and written by the byte or by the word with its high byte
first. A write that fails changes nothing. Program images are placed at 0x200
and cut at the top of memory.
-/

namespace Chip8

structure Memory where
  bytes : Vector UInt8 4096
  deriving DecidableEq

namespace Memory

def zero : Memory := ⟨Vector.replicate 4096 0⟩

def read (m : Memory) (a : Address) : Except Fault UInt8 := do
  let i ← a.cell
  return m.bytes[i]

def write (m : Memory) (a : Address) (value : UInt8) : Except Fault Memory := do
  let i ← a.cell
  return ⟨m.bytes.set i value⟩

def readWord (m : Memory) (a : Address) : Except Fault Word := do
  let high ← m.read a
  let low ← m.read (← a.offset 1)
  return .ofBytes high low

/-- Both cells are found before the first is written. -/
def writeWord (m : Memory) (a : Address) (value : Word) : Except Fault Memory := do
  let next ← (← a.offset 1).cell
  let m ← m.write a value.high
  return ⟨m.bytes.set next value.low⟩

def programStart : Word := 0x200

/-- How many bytes of an image fit from the start of programs to the top of memory. -/
def fitting (image : Array UInt8) : Nat := min image.size 3584

/-- Memory with an image over what lay at 0x200, the bytes beyond its end left alone. -/
def place (m : Memory) (image : Array UInt8) : Memory :=
  ⟨Vector.ofFn fun i =>
    if 0x200 ≤ i.val then image.getD (i.val - 0x200) m.bytes[i] else m.bytes[i]⟩

/-- The first bytes from an address on, up to the fault that stops the reading. -/
def readUpTo (m : Memory) (a : Address) : (start count : Nat) → List UInt8 × Option Fault
  | _, 0 => ([], none)
  | i, count + 1 =>
    match a.offset i >>= m.read with
    | .error f => ([], some f)
    | .ok b =>
      let (bs, f) := m.readUpTo a (i + 1) count
      (b :: bs, f)

variable (m : Memory)

theorem read_eq_ok {a : Address} (h : a.toNat < 4096) : m.read a = .ok m.bytes[a.toNat] := by
  simp [read, Address.cell_eq_ok h, bind, Except.bind, pure, Except.pure]

theorem read_eq_error {a : Address} (h : 4096 ≤ a.toNat) : m.read a = .error (.outOfBounds a) := by
  simp [read, Address.cell_eq_error h, bind, Except.bind]

theorem getElem_place (image : Array UInt8) {i : Nat} (h : i < 4096) :
    (m.place image).bytes[i] =
      if 0x200 ≤ i then image.getD (i - 0x200) m.bytes[i] else m.bytes[i] := by
  simp [place]

end Memory

end Chip8
