import Chip8.Proofs.Machine.Trace

/-! # Runs

A run makes steps until one fails or as many as were asked for have succeeded. It leaves
the machine that these steps leave, and their records.
-/

namespace Chip8.Machine

variable {m : Machine} {n k : Nat}

def trail (m : Machine) (n : Nat) : List Record := (m.steps n).flatMap Cycle.records

theorem after_add (m : Machine) (n k : Nat) : m.after (n + k) = (m.after n).after k := by
  induction n generalizing m with
  | zero => rw [Nat.zero_add]; rfl
  | succ n ih => rw [Nat.succ_add]; exact ih m.step.machine

theorem steps_add (m : Machine) (n k : Nat) :
    m.steps (n + k) = m.steps n ++ (m.after n).steps k := by
  induction n generalizing m with
  | zero => rw [Nat.zero_add]; rfl
  | succ n ih => rw [Nat.succ_add]; exact congrArg (m.step :: ·) (ih m.step.machine)

theorem trail_add (m : Machine) (n k : Nat) :
    m.trail (n + k) = m.trail n ++ (m.after n).trail k := by
  rw [trail, steps_add, List.flatMap_append, trail, trail]

/-- Steps succeed, or one of them is the first to fail. -/
theorem ok_or_fails (m : Machine) (n : Nat) : (∀ c ∈ m.steps n, c.result = .ok ()) ∨
    ∃ k < n, (∀ c ∈ m.steps k, c.result = .ok ()) ∧ ∃ e, (m.after k).step.result = .error e := by
  induction n with
  | zero => exact Or.inl nofun
  | succ n ih =>
    rcases ih with run | ⟨k, hk, failed⟩
    · cases hr : (m.after n).step.result with
      | ok =>
        left
        rw [steps_succ]
        exact List.forall_mem_append.mpr ⟨run, List.forall_mem_singleton.mpr hr⟩
      | error e => exact Or.inr ⟨n, Nat.lt_succ_self n, run, e, hr⟩
    · exact Or.inr ⟨k, Nat.lt_succ_of_lt hk, failed⟩

theorem runFrom_add (run : ∀ c ∈ m.steps n, c.result = .ok ()) (successes : Nat)
    (records : List Record) : m.runFrom successes records (n + k) =
      (m.after n).runFrom (successes + n) ((m.trail n).reverse ++ records) k := by
  induction n generalizing m successes records with
  | zero => rw [Nat.zero_add]; rfl
  | succ n ih =>
    have first := run m.step List.mem_cons_self
    have rest := ih (m := m.step.machine) fun c hc => run c (List.mem_cons_of_mem _ hc)
    have kept : m.trail (n + 1) = m.step.records ++ m.step.machine.trail n := rfl
    rw [Nat.succ_add, runFrom]
    simp only [first]
    rw [rest, kept, List.reverse_append, List.append_assoc, Nat.add_assoc, Nat.add_comm 1]
    rfl

theorem run_of_ok (run : ∀ c ∈ m.steps n, c.result = .ok ()) :
    m.run n = ⟨m.after n, n, none, m.trail n⟩ := by
  have made := runFrom_add run 0 [] (k := 0)
  rw [Nat.add_zero, runFrom, Nat.zero_add, List.append_nil, List.reverse_reverse] at made
  exact made

/-- The first step to fail is the last one of a run. -/
theorem run_of_error {e : StepError} (run : ∀ c ∈ m.steps k, c.result = .ok ()) (hk : k < n)
    (failed : (m.after k).step.result = .error e) :
    m.run n = ⟨m.after (k + 1), k, some e, m.trail (k + 1)⟩ := by
  obtain ⟨rest, rfl⟩ := Nat.exists_eq_add_of_lt hk
  rw [Machine.run, Nat.add_assoc, runFrom_add run, runFrom]
  simp only [failed]
  simp [after_succ, trail, steps_succ]

end Chip8.Machine
