import Chip8.Proofs.Machine.Bounds
import Chip8.Proofs.Machine.Run

/-! # Progress of straight runs

An instruction that does not give the program counter an address of its own moves it
ahead by one word or two. Memory has only so many words, so that a run without
transfers of control soon comes to an error.
-/

namespace Chip8

namespace Instruction

/-- The instructions that send the program counter elsewhere than just ahead. -/
def isTransfer : Instruction → Bool
  | jump _ | call _ | ret | jumpOffset _ => true
  | _ => false

end Instruction

def Memory.instructionAt (m : Memory) (a : Nat) : Option Instruction :=
  Instruction.decode (.ofBytes (m.byte a) (m.byte (a + 1)))

namespace Machine

variable {m : Machine} {n : Nat}

theorem mem_executed_succ {i : Instruction} :
    i ∈ m.executed (n + 1) ↔ i ∈ m.executed n ∨ (m.after n).fetch = .ok i := by
  rw [executed, List.mem_append]
  cases (m.after n).fetch <;> simp [Except.toOption, eq_comm]

theorem mem_steps_succ {c : Cycle} :
    c ∈ m.steps (n + 1) ↔ c ∈ m.steps n ∨ c = (m.after n).step := by
  rw [steps_succ, List.mem_append, List.mem_singleton]

theorem instructionAt_of_fetch {i : Instruction} (h : m.fetch = .ok i) :
    m.pc.toNat ≤ 4094 ∧ m.memory.instructionAt m.pc.toNat = some i := by
  obtain ⟨low, decoded⟩ := m.fetch_eq_ok_iff.mp h
  exact ⟨Nat.le_of_lt_succ low, decoded⟩

/-- A step that succeeds without a transfer of control leads one or two words ahead. -/
theorem le_pc_step (h : m.step.result = .ok ())
    (straight : ∀ i, m.fetch = .ok i → i.isTransfer = false) :
    m.pc.toNat + 2 ≤ m.step.machine.pc.toNat := by
  obtain ⟨i, a, fetched, destined, low, hs⟩ := moved_of_ok h
  have ahead := straight i fetched
  rw [hs]
  rcases destination_cases destined with
    ⟨rfl, -⟩ | ⟨t, rfl | rfl, -⟩ | ⟨t, rfl, -⟩ | ⟨k, hk, rfl⟩
  · cases ahead
  · cases ahead
  · cases ahead
  · cases ahead
  · rw [m.toNat_pc_add (by omega)] at low
    rw [UInt64.toNat_toUInt16, m.toNat_pc_add (by omega)]
    omega

theorem le_pc_after (run : ∀ c ∈ m.steps n, c.result = .ok ())
    (straight : ∀ i ∈ m.executed n, i.isTransfer = false) :
    m.pc.toNat + 2 * n ≤ (m.after n).pc.toNat := by
  induction n with
  | zero => exact Nat.le_refl _
  | succ n ih =>
    have before := ih (fun c hc => run c (mem_steps_succ.mpr (Or.inl hc)))
      (fun i hi => straight i (mem_executed_succ.mpr (Or.inl hi)))
    have last := le_pc_step (run _ (mem_steps_succ.mpr (Or.inr rfl)))
      (fun i hi => straight i (mem_executed_succ.mpr (Or.inr hi)))
    rw [after_succ]
    omega

theorem pc_after_le (positive : 0 < n) (run : ∀ c ∈ m.steps n, c.result = .ok ()) :
    (m.after n).pc.toNat ≤ 4095 := by
  obtain ⟨k, rfl⟩ := Nat.exists_eq_succ_of_ne_zero (Nat.ne_of_gt positive)
  rw [after_succ]
  exact inside_step_of_ok (run _ (mem_steps_succ.mpr (Or.inr rfl)))

theorem straight_of_memory
    (clear : ∀ a, m.pc.toNat ≤ a → a ≤ 4094 →
      ∀ i, m.memory.instructionAt a = some i → i.isTransfer = false)
    (run : ∀ c ∈ m.steps n, c.result = .ok ()) :
    ∀ i ∈ m.executed n, i.isTransfer = false := by
  induction n with
  | zero => exact nofun
  | succ n ih =>
    have earlier : ∀ c ∈ m.steps n, c.result = .ok () :=
      fun c hc => run c (mem_steps_succ.mpr (Or.inl hc))
    have straight := ih earlier
    intro i hi
    rcases mem_executed_succ.mp hi with hi | fetched
    · exact straight i hi
    · obtain ⟨low, found⟩ := instructionAt_of_fetch fetched
      have climbed := le_pc_after earlier straight
      rw [memory_after] at found
      exact clear _ (by omega) low i found

theorem step_of_running (running : m.halted = false) :
    m.step.result = .ok () ∨ ∃ e, e ≠ .halted ∧ m.step.result = .error e := by
  rcases perform_step_of_running running with ⟨ok, -⟩ | ⟨e, he, failed, -⟩
  · exact Or.inl (Performed.ofCycle_eq_ok_iff.mp ok).1
  · exact Or.inr ⟨e, he, Performed.ofCycle_eq_error_iff.mp failed⟩

theorem running_after (running : m.halted = false) (run : ∀ c ∈ m.steps n, c.result = .ok ()) :
    (m.after n).halted = false := by
  cases n with
  | zero => exact running
  | succ n =>
    rw [after_succ, halted_step, run _ (mem_steps_succ.mpr (Or.inr rfl))]
    rfl

theorem succeeds_or_fails (running : m.halted = false) (n : Nat) :
    (∀ c ∈ m.steps n, c.result = .ok ()) ∨
      ∃ k < n, ∃ e, e ≠ .halted ∧ (m.after k).step.result = .error e := by
  rcases m.ok_or_fails n with run | ⟨k, hk, run, e, failed⟩
  · exact Or.inl run
  · rcases step_of_running (running_after running run) with ok | ⟨e', he, failed'⟩
    · cases ok.symm.trans failed
    · exact Or.inr ⟨k, hk, e', he, failed'⟩

/-- A run that succeeds without transfers of control climbs by two at each step and stays in
memory. So there is one among any 2048 steps that succeed, and a machine that has none ahead of
it reports an error by the time it could have come to the top. -/
theorem straight_run_ends (m : Machine) :
    (∀ n, 0 < n → (∀ c ∈ m.steps n, c.result = .ok ()) →
      (∀ i ∈ m.executed n, i.isTransfer = false) →
      m.pc.toNat + 2 * n ≤ (m.after n).pc.toNat ∧ (m.after n).pc.toNat ≤ 4095) ∧
    ((∀ c ∈ m.steps 2048, c.result = .ok ()) → ∃ i ∈ m.executed 2048, i.isTransfer = true) ∧
    (m.halted = false → m.pc.toNat ≤ 4095 →
      (∀ a, m.pc.toNat ≤ a → a ≤ 4094 →
        ∀ i, m.memory.instructionAt a = some i → i.isTransfer = false) →
      ∃ k ≤ (4095 - m.pc.toNat) / 2, ∃ e, e ≠ .halted ∧ (m.after k).step.result = .error e) := by
  refine ⟨fun n positive run straight => ⟨le_pc_after run straight, pc_after_le positive run⟩,
    ?_, ?_⟩
  · intro run
    by_contra none
    have straight : ∀ i ∈ m.executed 2048, i.isTransfer = false :=
      fun i hi => Bool.eq_false_iff.mpr fun transfer => none ⟨i, hi, transfer⟩
    have climbed := le_pc_after run straight
    have inside := pc_after_le (by decide) run
    omega
  · intro running low clear
    rcases succeeds_or_fails running ((4095 - m.pc.toNat) / 2 + 1) with run | ⟨k, hk, failed⟩
    · have climbed := le_pc_after run (straight_of_memory clear run)
      have inside := pc_after_le (Nat.add_one_pos _) run
      omega
    · exact ⟨k, Nat.le_of_lt_succ hk, failed⟩

def allLoads : Machine :=
  { fresh ⟨.replicate 8 0, 0⟩ with memory := ⟨.replicate 4096 0x60⟩, pc := 4090 }

theorem straight_allLoads :
    ∃ k ≤ 2, ∃ e, e ≠ .halted ∧ (allLoads.after k).step.result = .error e := by
  apply (straight_run_ends allLoads).2.2 rfl (by decide)
  intro a _ high i found
  have load : allLoads.memory.instructionAt a = some (.load 0 0x60) := by
    have byte (b : Nat) (hb : b < 4096) : allLoads.memory.byte b = 0x60 := by
      simp [allLoads, Memory.byte, hb]
    rw [Memory.instructionAt, byte a (by omega), byte (a + 1) (by omega)]
    rfl
  cases load.symm.trans found
  rfl

end Machine

end Chip8
