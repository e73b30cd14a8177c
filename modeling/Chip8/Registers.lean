/-! # Registers

Sixteen bytes V0 to VF. Of a register's number only the last hexadecimal digit
counts, and addition wraps without touching another register.
-/

namespace Chip8

structure Registers where
  values : Vector UInt8 16
  deriving DecidableEq, Repr

namespace Registers

def zero : Registers := ⟨Vector.replicate 16 0⟩

def slot (number : UInt8) : Fin 16 := ⟨number.toNat % 16, Nat.mod_lt _ (by decide)⟩

def get (r : Registers) (number : UInt8) : UInt8 := r.values[slot number]

def set (r : Registers) (number value : UInt8) : Registers :=
  ⟨r.values.set (slot number) value⟩

def add (r : Registers) (number value : UInt8) : Registers :=
  r.set number (r.get number + value)

end Registers

end Chip8
