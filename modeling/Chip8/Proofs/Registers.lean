import Chip8.Registers

/-! # Assigned registers

A register that is given a value holds it afterwards and the others hold what they
held before. That determines all sixteen of them.
-/

namespace Chip8.Registers

def value (r : Registers) (k : Nat) : UInt8 := r.values[k]?.getD 0

/-- One register has a value, by the last digit of its number, and the others are as before. -/
def Assigned (r : Registers) (x v : UInt8) (r' : Registers) : Prop :=
  ∀ k < 16, r'.value k = if k = x.toNat % 16 then v else r.value k

variable {r r' : Registers} {x v : UInt8}

theorem get_eq_value : r.get x = r.value (x.toNat % 16) := by
  simp [get, value, slot, Nat.mod_lt]

theorem assigned_set : r.Assigned x v (r.set x v) := by
  intro k hk
  by_cases here : k = x.toNat % 16
  · simp [set, slot, value, here, Nat.mod_lt]
  · simp [set, slot, value, here, Ne.symm here]

theorem Assigned.eq_set (h : r.Assigned x v r') : r' = r.set x v := by
  have values : r'.values = (r.set x v).values := by
    apply Vector.ext
    intro k hk
    simpa [value, hk] using (h k hk).trans (assigned_set k hk).symm
  cases r'
  exact congrArg mk values

end Chip8.Registers
