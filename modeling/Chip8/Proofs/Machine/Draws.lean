import Chip8.Proofs.Machine.Halting
import Chip8.Proofs.Registers

/-! # Random draws in order

Each random instruction that a session executes takes the next byte of the stream
of the machine's seed, whether it can move on or not, and nothing else takes one.
The number of the byte is the number of random instructions executed before.
-/

namespace Chip8

namespace Instruction

def isRandom : Instruction → Bool
  | random _ _ => true
  | _ => false

end Instruction

namespace Machine

variable {m : Machine} {o : Operation}

/-- The instruction that an operation executes; only a step executes one. -/
def executedBy (m : Machine) : Operation → Option Instruction
  | .step => m.executing?
  | _ => none

def executedIn (m : Machine) : List Operation → List Instruction
  | [] => []
  | o :: os => (m.executedBy o).toList ++ (m.perform o).machine.executedIn os

def randomsIn (m : Machine) (os : List Operation) : Nat :=
  (m.executedIn os).countP Instruction.isRandom

theorem executedBy_direct (h : o.isStep = false) : m.executedBy o = none := by
  cases o with
  | step => cases h
  | _ => rfl

theorem random_effect (m : Machine) (i : Instruction) :
    (m.effect i).random = if i.isRandom then m.random.draw.2 else m.random := by
  cases i <;> rfl

/-- Executing a random instruction takes a byte, and nothing else that is performed does. -/
theorem random_perform (m : Machine) (o : Operation) : (m.perform o).machine.random =
    if (m.executedBy o).any Instruction.isRandom then m.random.draw.2 else m.random := by
  rcases o.direct_or_step with direct | rfl
  · rw [executedBy_direct direct]
    exact (perform_direct direct).2
  · change m.step.machine.random = if m.executing?.any Instruction.isRandom then _ else _
    cases he : m.executing? with
    | none =>
      obtain ⟨_, hs⟩ := step_eq_self he
      rw [hs]
      rfl
    | some i =>
      obtain ⟨_, _, hs⟩ := step_eq_effect he
      rw [hs]
      exact m.random_effect i

theorem registers_perform_random {x mask : UInt8} (h : m.executedBy o = some (.random x mask)) :
    m.registers.Assigned x (mask &&& RandomSource.byteAt m.random.key m.random.drawn)
      (m.perform o).machine.registers := by
  rcases o.direct_or_step with direct | rfl
  · cases (executedBy_direct direct).symm.trans h
  · obtain ⟨_, _, hs⟩ := step_eq_effect h
    change Registers.Assigned _ _ _ m.step.machine.registers
    rw [hs]
    exact Registers.assigned_set

theorem random_leftBy (m : Machine) (os : List Operation) : (m.leftBy os).random =
    { m.random with drawn := m.random.drawn + m.randomsIn os } := by
  induction os generalizing m with
  | nil => rfl
  | cons o os ih =>
    rw [leftBy_cons, ih, random_perform, randomsIn, randomsIn, executedIn, List.countP_append]
    cases m.executedBy o with
    | none => simp
    | some i => cases h : i.isRandom <;> simp [h, RandomSource.draw, Nat.add_assoc]

/-- In a session on a machine of a seed, a random instruction takes the byte whose number is that
of the random instructions executed before it, and writes the byte masked to its register and to
no other, even if it cannot move on. Whatever else is performed leaves the stream where it is. -/
theorem draws_in_order (seed : UInt64) (os : List Operation) (o : Operation) :
    ((ofSeed seed).leftBy os).random =
      ⟨RandomSource.keyOfSeed seed, (ofSeed seed).randomsIn os⟩ ∧
    (∀ x mask, ((ofSeed seed).leftBy os).executedBy o = some (.random x mask) →
      ((ofSeed seed).leftBy os).registers.Assigned x
        (mask &&& RandomSource.byteAt (RandomSource.keyOfSeed seed) ((ofSeed seed).randomsIn os))
        (((ofSeed seed).leftBy os).perform o).machine.registers ∧
      (((ofSeed seed).leftBy os).perform o).machine.random =
        ⟨RandomSource.keyOfSeed seed, (ofSeed seed).randomsIn os + 1⟩) ∧
    ((∀ x mask, ((ofSeed seed).leftBy os).executedBy o ≠ some (.random x mask)) →
      (((ofSeed seed).leftBy os).perform o).machine.random =
        ((ofSeed seed).leftBy os).random) := by
  have stream : ((ofSeed seed).leftBy os).random =
      ⟨RandomSource.keyOfSeed seed, (ofSeed seed).randomsIn os⟩ := by
    simp [random_leftBy, ofSeed, fresh, RandomSource.ofSeed]
  refine ⟨stream, ?_, ?_⟩
  · intro x mask h
    have written := registers_perform_random h
    rw [stream] at written
    refine ⟨written, ?_⟩
    rw [random_perform, h, stream]
    rfl
  · intro h
    rw [random_perform, if_neg]
    cases he : ((ofSeed seed).leftBy os).executedBy o with
    | none => exact Bool.false_ne_true
    | some i =>
      cases i with
      | random x mask => exact absurd he (h x mask)
      | _ => exact Bool.false_ne_true

theorem draws_in_order_seven :
    (((ofSeed 7).leftBy [.writeWord 0x200 0xC10F]).perform .step).machine.registers.value 1 =
      0x0E := by
  have executed : ((ofSeed 7).leftBy [.writeWord 0x200 0xC10F]).executedBy .step =
      some (.random 1 0x0F) := by decide +kernel
  have first : (ofSeed 7).randomsIn [.writeWord 0x200 0xC10F] = 0 := rfl
  have drawn : RandomSource.byteAt (RandomSource.keyOfSeed 7) 0 = 0xBE := by decide +kernel
  have written := ((draws_in_order 7 [.writeWord 0x200 0xC10F] .step).2.1 1 0x0F executed).1 1
    (by decide)
  rw [written, first, drawn]
  rfl

end Machine

end Chip8
