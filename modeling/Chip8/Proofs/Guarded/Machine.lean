import Chip8.Machine.Operation
import Chip8.Proofs.Guarded.Parts
import Chip8.Proofs.Machine.Effect

/-! # The guarded machine

The operations on a machine with a guard at every sum, shift, access to an element and copy of
a slice. From any state whatever no guard traps, and the machine does what it does without
them. The return address of a call relies on the fetch before it, which has found the
program counter below the top of memory; everything else relies on its own checks.
-/

namespace Chip8.Guarded

def advance (m : Machine) (skip : Bool) : Guarded Machine.Outcome := do
  return m.moveTo (.ofNat (← add 64 m.pc.toNat (if skip then 4 else 2)))

def assign (m : Machine) (x value : UInt8) : Guarded Machine.Outcome := do
  let registers ← setRegister m.registers x value
  advance { m with registers } false

def operandValue (m : Machine) : Operand → Guarded UInt8
  | .byte k => .ok k
  | .register y => register m.registers y

def execute (m : Machine) : Instruction → Guarded Machine.Outcome
  | .clearScreen => advance { m with screen := .blank } false
  | .ret =>
    match m.stack.pop with
    | .ok (a, rest) => .ok ({ m with stack := rest }.moveTo a.toUInt64)
    | .error f => .ok (m, .error f)
  | .jump a => .ok (m.moveTo a.toUInt64)
  | .call a => do
    match m.stack.push (.ofNat (← add 16 m.pc.toNat 2)) with
    | .ok pushed => return { m with stack := pushed }.moveTo a.toUInt64
    | .error f => return (m, .error f)
  | .skip c x o => do advance m (c.holds (← register m.registers x) (← operandValue m o))
  | .load x k => assign m x k
  | .add x k => do
    let registers ← addRegister m.registers x k
    advance { m with registers } false
  | .combine c x y => do
    assign m x (c.apply (← register m.registers x) (← register m.registers y))
  | .loadIndex a => advance { m with index := a } false
  | .jumpOffset a => do
    return m.moveTo (.ofNat (← add 64 a.toNat (← register m.registers 0).toNat))
  | .random x mask =>
    let (b, next) := m.random.draw
    assign { m with random := next } x (mask &&& b)
  | .draw x y rows => do
    let left ← register m.registers x
    let top ← register m.registers y
    let (drawn, result) ← paint m.screen m.memory left top m.index.toUInt64 rows
    match result with
    | .ok collision => assign { m with screen := drawn } 0xF collision.toUInt8
    | .error f => return ({ m with screen := drawn }, .error f)

def fetch (m : Machine) : Guarded (Except StepError Instruction) := do
  match ← (readWord m.memory m.pc.toUInt64).run with
  | .error f => return .error (.fault f)
  | .ok w =>
    match ← decode w with
    | some i => return .ok i
    | none => return .error (.unknownInstruction w m.pc)

def step (m : Machine) : Guarded Machine.Cycle := do
  if m.halted then return ⟨m, .error .halted, []⟩
  match ← fetch m with
  | .error e => return ⟨{ m with halted := true }, .error e, []⟩
  | .ok i =>
    match ← execute m i with
    | (next, .ok ()) => return ⟨next, .ok (), [.executing m.pc i]⟩
    | (next, .error f) =>
      return ⟨{ next with halted := true }, .error (.fault f), [.executing m.pc i]⟩

def perform (m : Machine) : Operation → Guarded Performed
  | .load image => return .ofLoading m (← load m.memory image)
  | .loadFile path reading => return .ofLoading m (← loadFile m.memory path reading)
  | .read a => return .query m .byte (← (readByte m.memory a).run)
  | .write a v =>
    return .update m (fun memory => ({ m with memory }, .done)) (← (writeByte m.memory a v).run)
  | .readWord a => return .query m .word (← (readWord m.memory a).run)
  | .writeWord a v =>
    return .update m (fun memory => ({ m with memory }, .done)) (← (writeWord m.memory a v).run)
  | .setRegister x v => do
    let registers ← setRegister m.registers x v
    return .always { m with registers }
  | .addRegister x v => do
    let registers ← addRegister m.registers x v
    return .always { m with registers }
  | .advance skip => return .ofOutcome (← advance m skip)
  | .paint x y a rows => do
    let (drawn, result) ← paint m.screen m.memory x y a rows
    return .query { m with screen := drawn } .flag result
  | .fetch => do
    match ← fetch m with
    | .ok i => return ⟨m, .ok (.instruction i), []⟩
    | .error e => return ⟨m, .error e, []⟩
  | .step => return .ofCycle (← step m)
  -- what is left has nothing to guard: it replaces parts, and the stack grows and shrinks at its end
  | o => .ok (m.perform o)

variable (m : Machine)

@[simp] theorem run_safely {α : Type} (r : Except Fault α) : (safely r).run = .ok r := rfl

theorem advance_eq (skip : Bool) : advance m skip = .ok (m.advance skip) := by
  have := m.pc.toNat_lt
  have sum (k : Nat) (hk : k < 8) : add 64 m.pc.toNat k = .ok (m.pc.toNat + k) :=
    add_eq_ok (by omega)
  have next (k : Nat) (hk : k < 8) :
      UInt64.ofNat (m.pc.toNat + k) = m.pc.toUInt64 + UInt64.ofNat k := by
    rw [← UInt64.toNat_inj, m.toNat_pc_add hk, UInt64.toNat_ofNat', Nat.mod_eq_of_lt (by omega)]
  cases skip
  · simp only [advance, Machine.advance, Bool.false_eq_true, if_false, sum 2 (by decide), ok_bind,
      next 2 (by decide)]
    rfl
  · simp only [advance, Machine.advance, if_true, sum 4 (by decide), ok_bind, next 4 (by decide)]
    rfl

theorem assign_eq (x value : UInt8) : assign m x value = .ok (m.assign x value) := by
  simp [assign, setRegister_eq, advance_eq, Machine.assign]

theorem operandValue_eq (o : Operand) : operandValue m o = .ok (m.operandValue o) := by
  cases o with
  | byte k => rfl
  | register y => exact register_eq m.registers y

theorem jumpOffset_eq (a : Word) :
    execute m (.jumpOffset a) = .ok (m.execute (.jumpOffset a)) := by
  have := a.toNat_lt
  have := (m.registers.get 0).toNat_lt
  have sum : add 64 a.toNat (m.registers.get 0).toNat = .ok (a.toNat + (m.registers.get 0).toNat) :=
    add_eq_ok (by omega)
  have target : UInt64.ofNat (a.toNat + (m.registers.get 0).toNat) =
      a.toUInt64 + (m.registers.get 0).toUInt64 := by
    rw [← UInt64.toNat_inj, UInt64.toNat_add, UInt64.toNat_ofNat']
    simp
  simp [execute, register_eq, sum, target, Machine.execute]

/-- Only the return address of a call can be out of reach, and then the call traps. -/
theorem execute_cases (i : Instruction) :
    execute m i = .ok (m.execute i) ∨
      (∃ a, i = .call a) ∧ 2 ^ 16 ≤ m.pc.toNat + 2 ∧ execute m i = .error .overflow := by
  cases i with
  | call a =>
    -- the one sum that is not made in more bits than its terms have
    by_cases h : m.pc.toNat + 2 < 2 ^ 16
    · left
      have next : UInt16.ofNat (m.pc.toNat + 2) = m.pc + 2 := by
        rw [← UInt16.toNat_inj, UInt16.toNat_ofNat', UInt16.toNat_add]
        rfl
      simp only [execute, add_eq_ok h, ok_bind, next, Machine.execute]
      cases m.stack.push (m.pc + 2) <;> rfl
    · right
      have trap : add 16 m.pc.toNat 2 = .error .overflow := if_neg h
      exact ⟨⟨a, rfl⟩, by omega, by simp only [execute, trap]; rfl⟩
  | ret =>
    left
    simp only [execute, Machine.execute]
    cases m.stack.pop <;> rfl
  | draw x y rows =>
    left
    simp only [execute, register_eq, ok_bind, paint_eq, Machine.execute]
    cases (m.screen.paint m.memory (m.registers.get x) (m.registers.get y) m.index.toUInt64
      rows).2 with
    | error f => rfl
    | ok collision => exact assign_eq _ _ _
  | jumpOffset a => exact .inl (jumpOffset_eq m a)
  | skip c x o =>
    left
    simp [execute, register_eq, operandValue_eq, advance_eq, Machine.execute]
  | add x k =>
    left
    simp [execute, addRegister_eq, advance_eq, Machine.execute, Machine.assign, Registers.add]
  | combine c x y =>
    left
    simp [execute, register_eq, assign_eq, Machine.execute]
  | clearScreen | loadIndex a => exact .inl (advance_eq _ _)
  | load x k | random x mask => exact .inl (assign_eq _ _ _)
  | jump a => exact .inl rfl

theorem fetch_eq : fetch m = .ok m.fetch := by
  simp only [fetch, readWord_eq, run_safely, ok_bind, Machine.fetch]
  cases m.memory.readWord m.pc.toUInt64 with
  | error f => rfl
  | ok w =>
    simp only [decode_eq, ok_bind]
    cases Instruction.decode w <;> rfl

theorem execute_eq_of_fetch {i : Instruction} (h : m.fetch = .ok i) :
    m.pc.toNat ≤ 4094 ∧ execute m i = .ok (m.execute i) := by
  have inside := (m.fetch_eq_ok_iff.mp h).1
  refine ⟨by omega, ?_⟩
  rcases execute_cases m i with done | ⟨-, past, -⟩
  · exact done
  · omega

theorem step_eq : step m = .ok m.step := by
  cases halted : m.halted with
  | true => simp [step, Machine.step, halted]
  | false =>
    cases fetched : m.fetch with
    | error e => simp [step, Machine.step, halted, fetch_eq, fetched]
    | ok i =>
      simp only [step, Machine.step, halted, fetch_eq, fetched, ok_bind,
        (execute_eq_of_fetch m fetched).2, Bool.false_eq_true, if_false]
      rcases m.execute i with ⟨next, _ | _⟩ <;> rfl

theorem perform_eq (o : Operation) : perform m o = .ok (m.perform o) := by
  cases o <;>
    simp [perform, Machine.perform, load_eq, loadFile_eq, readByte_eq, writeByte_eq, readWord_eq,
      writeWord_eq, setRegister_eq, addRegister_eq, advance_eq, paint_eq, fetch_eq, step_eq]
  cases m.fetch <;> rfl

/-- No operation on any machine traps, and each does what it does unguarded. A step executes
only what was fetched below the top of memory, decoding takes every word within its four
digits, and the registers and the pixels are there to be read under every number. -/
theorem untrapped :
    (∀ o, perform m o = .ok (m.perform o)) ∧
      (∀ i, fetch m = .ok (.ok i) → m.pc.toNat ≤ 4094 ∧ execute m i = .ok (m.execute i)) ∧
      (∀ w, decode w = .ok (Instruction.decode w)) ∧
      (∀ x, register m.registers x = .ok (m.registers.get x)) ∧
      ∀ x y, pixel m.screen x y = .ok (m.screen.pixel x.toNat y.toNat) := by
  refine ⟨perform_eq m, fun i h => ?_, decode_eq, register_eq m.registers, pixel_eq m.screen⟩
  rw [fetch_eq, Except.ok.injEq] at h
  exact execute_eq_of_fetch m h

end Chip8.Guarded
