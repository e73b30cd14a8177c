import Chip8.Fault
import Chip8.Word

/-! # The call stack

Return addresses of the calls that are under way, at most sixteen of them.
-/

namespace Chip8

/-- The entries, the one of the innermost call first. -/
structure CallStack where
  entries : List Word
  deriving DecidableEq, Repr

namespace CallStack

def empty : CallStack := ⟨[]⟩

def depth (s : CallStack) : Nat := s.entries.length

def push (s : CallStack) (a : Word) : Except Fault CallStack :=
  if s.depth < 16 then .ok ⟨a :: s.entries⟩ else .error .stackOverflow

def pop (s : CallStack) : Except Fault (Word × CallStack) :=
  match s.entries with
  | [] => .error .stackUnderflow
  | a :: rest => .ok (a, ⟨rest⟩)

theorem push_eq_error_iff {s : CallStack} {a : Word} {f : Fault} :
    s.push a = .error f ↔ 16 ≤ s.depth ∧ f = .stackOverflow := by
  unfold push
  by_cases h : s.depth < 16
  · rw [if_pos h]
    exact ⟨nofun, fun h' => absurd h'.1 (Nat.not_le.mpr h)⟩
  · rw [if_neg h]
    constructor
    · rintro ⟨⟩
      exact ⟨Nat.le_of_not_lt h, rfl⟩
    · rintro ⟨_, rfl⟩
      rfl

end CallStack

end Chip8
