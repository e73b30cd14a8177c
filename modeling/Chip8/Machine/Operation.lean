import Chip8.Loading
import Chip8.Machine.Step

/-! # Operations on a machine

Besides stepping, a machine can be loaded, read and changed from outside. Only a
step halts it, and a failed operation reports its cause.
-/

namespace Chip8

/-- The parts that can be put back to their first state; the call stack goes with memory. -/
inductive Part where
  | memory
  | stack
  | registers
  | screen
  | pc
  | index
  deriving DecidableEq, Repr

inductive Operation where
  | load (image : Array UInt8)
  | loadFile (path : String) (reading : Reading)
  | read (a : Address)
  | write (a : Address) (value : UInt8)
  | readWord (a : Address)
  | writeWord (a : Address) (value : Word)
  | push (a : Word)
  | pop
  | setRegister (number value : UInt8)
  | addRegister (number value : UInt8)
  | moveTo (a : Address)
  | advance (skip : Bool)
  | setPc (a : Word)
  | setIndex (a : Word)
  | reset (part : Part)
  | clearScreen
  | paint (x y : UInt8) (a : Address) (rows : UInt8)
  | fetch
  | step

inductive Answer where
  | done
  | count (n : Nat)
  | byte (b : UInt8)
  | word (w : Word)
  | flag (b : Bool)
  | instruction (i : Instruction)
  deriving DecidableEq, Repr

structure Performed where
  machine : Machine
  result : Except StepError Answer
  records : List Record

namespace Performed

variable {α : Type}

/-- An operation that leaves the given machine whether it succeeds or not. -/
def query (m : Machine) (answer : α → Answer) (r : Except Fault α) : Performed :=
  ⟨m, match r with
    | .ok a => .ok (answer a)
    | .error f => .error (.fault f), []⟩

/-- An operation that gives a new machine or fails and leaves it as it is. -/
def update (m : Machine) (change : α → Machine × Answer) (r : Except Fault α) : Performed :=
  match r with
  | .ok a => ⟨(change a).1, .ok (change a).2, []⟩
  | .error f => ⟨m, .error (.fault f), []⟩

def always (m : Machine) : Performed := ⟨m, .ok .done, []⟩

def ofOutcome (o : Machine.Outcome) : Performed :=
  ⟨o.1, match o.2 with
    | .ok () => .ok .done
    | .error f => .error (.fault f), []⟩

def ofLoading (m : Machine) (l : Loading) : Performed :=
  ⟨{ m with memory := l.memory }, match l.result with
    | .ok count => .ok (.count count)
    | .error f => .error (.fault f), l.records⟩

def ofCycle (c : Machine.Cycle) : Performed :=
  ⟨c.machine, match c.result with
    | .ok () => .ok .done
    | .error e => .error e, c.records⟩

section Result

variable {m : Machine} {f : Fault} {answer : Answer} {o : Machine.Outcome} {c : Machine.Cycle}

theorem query_eq_error_iff {answer : α → Answer} {r : Except Fault α} :
    (query m answer r).result = .error (.fault f) ↔ r = .error f := by
  cases r <;> simp [query]

theorem update_eq_error_iff {change : α → Machine × Answer} {r : Except Fault α} :
    (update m change r).result = .error (.fault f) ↔ r = .error f := by
  cases r <;> simp [update]

theorem ofOutcome_eq_error_iff : (ofOutcome o).result = .error (.fault f) ↔ o.2 = .error f := by
  rw [ofOutcome]
  cases o.2 <;> simp

theorem ofOutcome_eq_ok_iff :
    (ofOutcome o).result = .ok answer ↔ o.2 = .ok () ∧ answer = .done := by
  rw [ofOutcome]
  cases o.2 <;> simp [eq_comm]

theorem ofCycle_eq_error_iff {e : StepError} :
    (ofCycle c).result = .error e ↔ c.result = .error e := by
  rw [ofCycle]
  cases c.result <;> simp

theorem ofCycle_eq_ok_iff :
    (ofCycle c).result = .ok answer ↔ c.result = .ok () ∧ answer = .done := by
  rw [ofCycle]
  cases c.result <;> simp [eq_comm]

end Result

end Performed

namespace Machine

def reset (m : Machine) : Part → Machine
  | .memory => { m with memory := .zero, stack := .empty }
  | .stack => { m with stack := .empty }
  | .registers => { m with registers := .zero }
  | .screen => { m with screen := .blank }
  | .pc => { m with pc := Memory.programStart }
  | .index => { m with index := 0 }

def perform (m : Machine) : Operation → Performed
  | .load image => .ofLoading m (m.memory.load image)
  | .loadFile path reading => .ofLoading m (m.memory.loadFile path reading)
  | .read a => .query m .byte (m.memory.read a)
  | .write a v => .update m (fun memory => ({ m with memory }, .done)) (m.memory.write a v)
  | .readWord a => .query m .word (m.memory.readWord a)
  | .writeWord a v => .update m (fun memory => ({ m with memory }, .done)) (m.memory.writeWord a v)
  | .push a => .update m (fun stack => ({ m with stack }, .done)) (m.stack.push a)
  | .pop => .update m (fun (a, stack) => ({ m with stack }, .word a)) m.stack.pop
  | .setRegister x v => .always { m with registers := m.registers.set x v }
  | .addRegister x v => .always { m with registers := m.registers.add x v }
  | .moveTo a => .ofOutcome (m.moveTo a)
  | .advance skip => .ofOutcome (m.advance skip)
  | .setPc a => .always { m with pc := a }
  | .setIndex a => .always { m with index := a }
  | .reset part => .always (m.reset part)
  | .clearScreen => .always { m with screen := .blank }
  | .paint x y a rows =>
    let (drawn, result) := m.screen.paint m.memory x y a rows
    .query { m with screen := drawn } .flag result
  | .fetch =>
    ⟨m, match m.fetch with
      | .ok i => .ok (.instruction i)
      | .error e => .error e, []⟩
  | .step => .ofCycle m.step

/-- A session of operations one after another, going on after failures. -/
def performAll (m : Machine) : List Operation → List Performed
  | [] => []
  | o :: os =>
    let p := m.perform o
    p :: p.machine.performAll os

end Machine

end Chip8
