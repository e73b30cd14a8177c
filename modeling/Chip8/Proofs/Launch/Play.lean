import Chip8.Launch.Play
import Chip8.Proofs.Machine.Run

/-! # How a program that is played ends

A program is played until its window is closed, one of its steps fails, or a picture
cannot be shown. The exit status is zero in the first case only.
-/

namespace Chip8.Launch

open Machine

variable {m : Machine} {answers : List (Except String Unit)} {p : Played}

/-- The pictures of the first frames, each that of the screen after eleven steps more. -/
def pictures (m : Machine) (n : Nat) : List (Vector UInt32 2048) :=
  (List.range n).map fun f => (m.after (11 * (f + 1))).screen.render

theorem pictures_succ (m : Machine) (n : Nat) :
    pictures m (n + 1) = (m.after 11).screen.render :: pictures (m.after 11) n := by
  rw [pictures, List.range_succ_eq_map, List.map_cons, List.map_map, pictures]
  rfl

/-- How a program that is played can end: its window is closed, a step fails, or a picture is
lost. Until then everything has succeeded. -/
inductive Ending (m : Machine) (answers : List (Except String Unit)) : Played → Prop where
  | closed (shown : ∀ a ∈ answers, a = .ok ())
      (run : ∀ c ∈ m.steps (11 * answers.length), c.result = .ok ()) :
      Ending m answers
        ⟨pictures m answers.length, m.trail (11 * answers.length) ++ [.closed], 0⟩
  | failed {f k : Nat} {e : StepError} (frame : f < answers.length) (inside : k < 11)
      (shown : ∀ a ∈ answers.take f, a = .ok ())
      (run : ∀ c ∈ m.steps (11 * f + k), c.result = .ok ())
      (failure : (m.after (11 * f + k)).step.result = .error e) :
      Ending m answers ⟨pictures m f, m.trail (11 * f + k + 1) ++ [.stopped e.message], 1⟩
  | lost {f : Nat} {cause : String} (shown : ∀ a ∈ answers.take f, a = .ok ())
      (missing : answers[f]? = some (.error cause))
      (run : ∀ c ∈ m.steps (11 * (f + 1)), c.result = .ok ()) :
      Ending m answers ⟨pictures m (f + 1),
        m.trail (11 * (f + 1)) ++ [.stopped ("failed to update window: " ++ cause)], 1⟩

theorem Ending.cons (frame : ∀ c ∈ m.steps 11, c.result = .ok ())
    (h : Ending (m.after 11) answers p) : Ending m (.ok () :: answers)
      ⟨(m.after 11).screen.render :: p.pictures, m.trail 11 ++ p.records, p.status⟩ := by
  have later (n : Nat) : 11 + 11 * n = 11 * (n + 1) := by omega
  have both {n : Nat} (run : ∀ c ∈ (m.after 11).steps n, c.result = .ok ()) :
      ∀ c ∈ m.steps (11 + n), c.result = .ok () := by
    rw [steps_add]
    exact List.forall_mem_append.mpr ⟨frame, run⟩
  cases h with
  | closed shown run =>
    have all := both run
    rw [← List.append_assoc, ← trail_add, ← pictures_succ, later]
    rw [later] at all
    exact .closed (List.forall_mem_cons.mpr ⟨rfl, shown⟩) all
  | @failed f k e earlier inside shown run failure =>
    have all := both run
    rw [← after_add] at failure
    rw [← List.append_assoc, ← trail_add, ← pictures_succ]
    rw [← Nat.add_assoc, later] at all failure
    rw [← Nat.add_assoc, ← Nat.add_assoc, later]
    exact .failed (Nat.succ_lt_succ earlier) inside (List.forall_mem_cons.mpr ⟨rfl, shown⟩) all
      failure
  | @lost f cause shown missing run =>
    have all := both run
    rw [← List.append_assoc, ← trail_add, ← pictures_succ, later]
    rw [later] at all
    exact .lost (List.forall_mem_cons.mpr ⟨rfl, shown⟩) missing all

theorem ending_playFrom (m : Machine) (answers : List (Except String Unit)) :
    Ending m answers (playFrom m answers) := by
  induction answers generalizing m with
  | nil => exact .closed nofun nofun
  | cons answer answers ih =>
    rcases m.ok_or_fails 11 with frame | ⟨k, inside, run, e, failure⟩
    · have made : m.run stepsPerFrame = ⟨m.after 11, 11, none, m.trail 11⟩ := run_of_ok frame
      cases answer with
      | ok =>
        simp only [playFrom, made]
        exact (ih (m.after 11)).cons frame
      | error cause =>
        simp only [playFrom, made]
        exact .lost (f := 0) nofun rfl frame
    · have made : m.run stepsPerFrame = ⟨m.after (k + 1), k, some e, m.trail (k + 1)⟩ :=
        run_of_error run inside failure
      have first : 11 * 0 + k = k := Nat.zero_add k
      rw [← first] at run failure
      simp only [playFrom, made]
      rw [← first]
      exact .failed (f := 0) (Nat.zero_lt_succ _) inside nofun run failure

theorem Ending.status_eq_zero_iff (h : Ending m answers p) : p.status = 0 ↔
    (∀ a ∈ answers, a = .ok ()) ∧ ∀ c ∈ m.steps (11 * answers.length), c.result = .ok () := by
  cases h with
  | closed shown run => exact iff_of_true rfl ⟨shown, run⟩
  | @failed f k _ frame inside _ _ failure =>
    have early : 11 * f + k < 11 * answers.length := by omega
    refine iff_of_false (by decide : (1 : UInt8) ≠ 0) ?_
    rintro ⟨-, run⟩
    have ok := run _ (m.mem_steps_iff.mpr ⟨_, early, rfl⟩)
    cases ok.symm.trans failure
  | lost _ missing =>
    refine iff_of_false (by decide : (1 : UInt8) ≠ 0) ?_
    rintro ⟨shown, -⟩
    cases shown _ (List.mem_of_getElem? missing)

/-- The exit status is zero if the program could be started, its window opened and showed all
pictures, and no step failed until it was closed. -/
theorem status_play_eq_zero_iff (random : RandomSource) (path : String) (reading : Reading)
    (window : Window) : (play random path reading window).status = 0 ↔
      ∃ m, (start random path reading).machine? = some m ∧ window.opening = .ok () ∧
        (∀ a ∈ window.showing, a = .ok ()) ∧
        ∀ c ∈ m.steps (11 * window.showing.length), c.result = .ok () := by
  rw [play]
  cases hm : (start random path reading).machine? with
  | none => simp
  | some m =>
    cases ho : window.opening with
    | error cause => simp
    | ok => simp [(ending_playFrom m window.showing).status_eq_zero_iff]

end Chip8.Launch
