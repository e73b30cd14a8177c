import Chip8.Text.Hexadecimal

/-! # Faults

What can go wrong with memory, the call stack and program images, as causes
with their wording. Loading a program has faults of its own.
-/

namespace Chip8

/-- The addresses a caller may ask for; memory covers only the first of them. -/
abbrev Address := UInt64

inductive Fault where
  | outOfBounds (address : Address)
  | stackOverflow
  | stackUnderflow
  | emptyProgram
  | unreadable (path cause : String)
  deriving DecidableEq, Repr

namespace Fault

def message : Fault → String
  | outOfBounds a => "address 0x" ++ Hexadecimal.numeral 4 a.toNat ++ " is outside of memory"
  | stackOverflow => "stack overflow: more than 16 nested calls"
  | stackUnderflow => "stack underflow: return without a matching call"
  | emptyProgram => "program image is empty"
  | unreadable path _ => "could not read program '" ++ path ++ "'"

/-- What led to the fault, where something outside the machine did. -/
def cause? : Fault → Option String
  | unreadable _ cause => some cause
  | _ => none

def report (f : Fault) : String :=
  match f.cause? with
  | some cause => f.message ++ ": " ++ cause
  | none => f.message

/-- The faults of loading a program image. -/
def isLoading : Fault → Bool
  | emptyProgram | unreadable _ _ => true
  | _ => false

end Fault

namespace Address

/-- The address at a distance above another one; the sum has to be an address again. -/
def offset (a : Address) (distance : Nat) : Except Fault Address :=
  if a.toNat + distance < UInt64.size then .ok (a + UInt64.ofNat distance)
  else .error (.outOfBounds a)

def cell (a : Address) : Except Fault (Fin 4096) :=
  if h : a.toNat < 4096 then .ok ⟨a.toNat, h⟩ else .error (.outOfBounds a)

theorem toNat_add_ofNat (a : Address) {distance : Nat} (h : a.toNat + distance < UInt64.size) :
    (a + UInt64.ofNat distance).toNat = a.toNat + distance := by
  have size : UInt64.size = 2 ^ 64 := rfl
  rw [UInt64.toNat_add, UInt64.toNat_ofNat']
  omega

theorem offset_eq_ok {a : Address} {distance : Nat} (h : a.toNat + distance < UInt64.size) :
    a.offset distance = .ok (a + UInt64.ofNat distance) := if_pos h

theorem offset_eq_error {a : Address} {distance : Nat} (h : UInt64.size ≤ a.toNat + distance) :
    a.offset distance = .error (.outOfBounds a) := if_neg (Nat.not_lt.mpr h)

theorem cell_eq_ok {a : Address} (h : a.toNat < 4096) : a.cell = .ok ⟨a.toNat, h⟩ := dif_pos h

theorem cell_eq_error {a : Address} (h : 4096 ≤ a.toNat) : a.cell = .error (.outOfBounds a) :=
  dif_neg (Nat.not_lt.mpr h)

end Address

end Chip8
