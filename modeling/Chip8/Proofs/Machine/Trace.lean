import Chip8.Proofs.Machine.Halting
import Chip8.Proofs.Text.Numeral
import Mathlib.Data.List.Basic

/-! # The trace of a run

A run leaves one record for each of its steps that comes to execute an instruction, in
the order of the steps, and none for the others. A step that succeeds has executed one.
Of those that fail only the first can have, since the machine is halted from then on.
-/

namespace Chip8

/-- The line of an executed instruction: its place in three digits and its mnemonic. -/
def Record.executionText (pc : Word) (i : Instruction) : String :=
  "0x" ++ String.ofList
    [Hexadecimal.capital (pc.toNat / 256), Hexadecimal.capital (pc.toNat / 16 % 16),
      Hexadecimal.capital (pc.toNat % 16)] ++ ": " ++ i.mnemonic

theorem Record.text_executing {pc : Word} (h : pc.toNat < 4096) (i : Instruction) :
    (Record.executing pc i).text = executionText pc i := by
  have first : pc.toNat / 256 % 16 = pc.toNat / 256 := by omega
  have digits : Hexadecimal.lastDigits 3 pc.toNat =
      [Hexadecimal.capital (pc.toNat / 256), Hexadecimal.capital (pc.toNat / 16 % 16),
        Hexadecimal.capital (pc.toNat % 16)] := by
    simp [Hexadecimal.lastDigits, Hexadecimal.digit_eq_capital, Nat.div_div_eq_div_mul, first]
  rw [text, Hexadecimal.numeral_of_lt (by decide) h, digits, executionText]

namespace Machine

variable {m : Machine} {n : Nat}

theorem pc_lt_of_executing {i : Instruction} (h : m.executing? = some i) : m.pc.toNat < 4095 :=
  (m.fetch_eq_ok_iff.mp (m.executing?_eq_some_iff.mp h).2).1

theorem steps_eq_map (m : Machine) (n : Nat) :
    m.steps n = (List.range n).map fun k => (m.after k).step := by
  induction n generalizing m with
  | zero => rfl
  | succ n ih =>
    rw [steps, ih, List.range_succ_eq_map, List.map_cons, List.map_map]
    rfl

theorem records_step (m : Machine) :
    m.step.records = (m.executing?.map (.executing m.pc)).toList := by
  cases m.stepping with
  | halted hm hc => simp [hc, executing?, hm]
  | unfetched e hm hf hc => simp [hc, executing?, hm, hf, Except.toOption]
  | stuck i _ hm hf _ hc | outside i _ hm hf _ _ hc | moved i _ hm hf _ _ hc =>
    simp [hc, executing?, hm, hf, Except.toOption]

theorem halted_step (m : Machine) : m.step.machine.halted = !m.step.result.isOk := by
  cases m.stepping with
  | halted hm hc => simp [hc, hm, Except.isOk, Except.toBool]
  | unfetched _ _ _ hc | stuck _ _ _ _ _ hc | outside _ _ _ _ _ _ hc =>
    simp [hc, Except.isOk, Except.toBool]
  | moved _ _ hm _ _ _ hc => simp [hc, hm, Except.isOk, Except.toBool]

theorem executing_of_ok (h : m.step.result.isOk = true) : m.executing?.isSome = true := by
  cases m.stepping with
  | halted _ hc | unfetched _ _ _ hc | stuck _ _ _ _ _ hc | outside _ _ _ _ _ _ hc =>
    simp [hc, Except.isOk, Except.toBool] at h
  | moved _ _ hm hf _ _ _ => simp [executing?, hm, hf, Except.toOption]

theorem ok_of_running (h : (m.after n).halted = false) :
    ∀ k < n, (m.after k).step.result.isOk = true := by
  induction n with
  | zero => exact fun k hk => absurd hk (Nat.not_lt_zero k)
  | succ n ih =>
    rw [after_succ, halted_step, Bool.not_eq_false'] at h
    have running : (m.after n).halted = false :=
      ((m.after n).executing?_eq_some_iff.mp (Option.get_mem (executing_of_ok h))).1
    intro k hk
    rcases Nat.lt_succ_iff_lt_or_eq.mp hk with hk | rfl
    · exact ih running k hk
    · exact h

def FailsFirst (m : Machine) (k : Nat) : Prop :=
  (∀ j < k, (m.after j).step.result.isOk = true) ∧ (m.after k).step.result.isOk = false

instance (m : Machine) (k : Nat) : Decidable (m.FailsFirst k) :=
  inferInstanceAs (Decidable (_ ∧ _))

theorem steps_succ (m : Machine) (n : Nat) :
    m.steps (n + 1) = m.steps n ++ [(m.after n).step] := by
  rw [steps_eq_map, steps_eq_map, List.range_succ, List.map_append, List.map_singleton]

theorem records_steps (m : Machine) (n : Nat) : (m.steps n).flatMap Cycle.records =
    (List.range n).filterMap fun k =>
      (m.after k).executing?.map (.executing (m.after k).pc) := by
  rw [steps_eq_map, List.flatMap_map, List.filterMap_eq_flatMap_toList]
  simp only [records_step]

/-- A run leaves a record for each success, and one more if its first failure came late enough. -/
theorem length_records (m : Machine) (n : Nat) :
    ((m.steps n).flatMap Cycle.records).length =
      (m.steps n).countP (·.result.isOk) +
        if ∃ k < n, m.FailsFirst k ∧ (m.after k).executing?.isSome = true then 1 else 0 := by
  induction n with
  | zero => simp [steps]
  | succ n ih =>
    rw [steps_succ, List.flatMap_append, List.length_append, ih, List.countP_append]
    simp only [List.flatMap_singleton, records_step, List.countP_singleton,
      Nat.exists_lt_succ_right]
    cases hr : (m.after n).step.result.isOk with
    | true =>
      obtain ⟨i, hi⟩ := Option.isSome_iff_exists.mp (executing_of_ok hr)
      have succeeds : ¬ m.FailsFirst n := fun h => Bool.false_ne_true (h.2.symm.trans hr)
      simp [hi, succeeds]
      omega
    | false =>
      cases hi : (m.after n).executing? with
      | none => simp
      | some i =>
        have before := ok_of_running ((m.after n).executing?_eq_some_iff.mp hi).1
        have first : m.FailsFirst n := ⟨before, hr⟩
        have none_before :
            ¬ ∃ k < n, m.FailsFirst k ∧ (m.after k).executing?.isSome = true := by
          rintro ⟨k, hk, ⟨-, failed⟩, -⟩
          exact Bool.false_ne_true (failed.symm.trans (before k hk))
        simp [none_before, first]

end Machine

end Chip8
