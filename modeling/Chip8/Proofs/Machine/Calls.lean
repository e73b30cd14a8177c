import Chip8.Proofs.Machine.Effect
import Mathlib.Control.Monad.Basic

/-! # Calls and returns

A call stacks the address of the next word, a return goes to the address on top,
and nothing else touches the stack. What lies below a stacked address therefore
waits unchanged until that address is returned to.
-/

namespace Chip8

namespace CallStack

theorem push_eq_ok_iff {s t : CallStack} {a : Word} :
    s.push a = .ok t ↔ s.depth < 16 ∧ t = ⟨a :: s.entries⟩ := by
  unfold push
  by_cases h : s.depth < 16
  · rw [if_pos h]
    constructor
    · rintro ⟨⟩
      exact ⟨h, rfl⟩
    · rintro ⟨-, rfl⟩
      rfl
  · rw [if_neg h]
    exact ⟨nofun, fun h' => absurd h'.1 h⟩

theorem pop_eq_ok_iff {s t : CallStack} {a : Word} :
    s.pop = .ok (a, t) ↔ s.entries = a :: t.entries := by
  unfold pop
  cases s.entries with
  | nil => exact ⟨nofun, nofun⟩
  | cons b rest =>
    constructor
    · rintro ⟨⟩
      rfl
    · rintro ⟨⟩
      rfl

end CallStack

namespace Instruction

def isCall : Instruction → Bool
  | call _ => true
  | _ => false

def isReturn : Instruction → Bool
  | ret => true
  | _ => false

end Instruction

namespace Machine

variable {m : Machine}

/-- A successful step stacks the address after a call, takes off the one that it returns to, or
leaves the stack alone. -/
theorem stack_step (h : m.step.result = .ok ()) :
    (∃ t, m.fetch = .ok (.call t) ∧ m.stack.depth < 16 ∧
      m.step.machine.stack.entries = (m.pc + 2) :: m.stack.entries) ∨
    (m.fetch = .ok .ret ∧
      m.stack.entries = m.step.machine.pc :: m.step.machine.stack.entries) ∨
    (∃ i, m.fetch = .ok i ∧ i.isCall = false ∧ i.isReturn = false ∧
      m.step.machine.stack = m.stack) := by
  obtain ⟨i, a, hf, hd, -, hs⟩ := moved_of_ok h
  rw [hs]
  cases i with
  | call t =>
    cases hp : m.stack.push (m.pc + 2) with
    | error f =>
      rw [destination, hp] at hd
      cases hd
    | ok s =>
      obtain ⟨depth, rfl⟩ := CallStack.push_eq_ok_iff.mp hp
      exact Or.inl ⟨t, hf, depth, by simp only [effect, pushed, hp]⟩
  | ret =>
    cases hp : m.stack.pop with
    | error f =>
      rw [destination, hp] at hd
      cases hd
    | ok top =>
      obtain ⟨r, s⟩ := top
      rw [destination, hp] at hd
      obtain rfl := Except.ok.inj hd
      refine Or.inr (Or.inl ⟨hf, ?_⟩)
      simp only [effect, popped, hp, CallStack.pop_eq_ok_iff.mp hp, UInt16.toUInt16_toUInt64]
  | _ => exact Or.inr (Or.inr ⟨_, hf, rfl, rfl, rfl⟩)

theorem suffix_step {base : List Word} (hb : base <:+ m.stack.entries)
    (h : m.step.result = .ok ()) (hd : base.length ≤ m.step.machine.stack.depth) :
    base <:+ m.step.machine.stack.entries := by
  rcases stack_step h with ⟨t, -, -, hs⟩ | ⟨-, hs⟩ | ⟨i, -, -, -, hs⟩
  · rw [hs]
    exact hb.trans (List.suffix_cons ..)
  · rw [hs, List.suffix_cons_iff] at hb
    rcases hb with rfl | hb
    · exact absurd hd (Nat.not_le.mpr (Nat.lt_succ_self _))
    · exact hb
  · rwa [hs]

/-- A stack that falls below one of its entries does so by a return to that entry. -/
theorem return_of_depth_le {r : Word} {base : List Word} (hb : r :: base <:+ m.stack.entries)
    (h : m.step.result = .ok ()) (hd : m.step.machine.stack.depth ≤ base.length) :
    m.fetch = .ok .ret ∧ m.step.machine.stack.entries = base ∧ m.step.machine.pc = r := by
  have height : base.length + 1 ≤ m.stack.entries.length := hb.length_le
  unfold CallStack.depth at hd
  rcases stack_step h with ⟨t, -, -, hs⟩ | ⟨hf, hs⟩ | ⟨i, -, -, -, hs⟩
  · rw [hs, List.length_cons] at hd
    omega
  · rw [hs, List.length_cons] at height
    have same : (r :: base).length = m.stack.entries.length := by
      rw [hs, List.length_cons, List.length_cons]
      omega
    have top := hb.eq_of_length same
    rw [hs] at top
    obtain ⟨rfl, rfl⟩ := List.cons.inj top
    exact ⟨hf, rfl, rfl⟩
  · rw [hs] at hd
    omega

theorem suffix_after {base : List Word} {n : Nat} (hb : base <:+ m.stack.entries)
    (h : ∀ k < n, (m.after k).step.result = .ok ())
    (hd : ∀ k, 0 < k → k ≤ n → base.length ≤ (m.after k).stack.depth) :
    base <:+ (m.after n).stack.entries := by
  induction n with
  | zero => exact hb
  | succ n ih =>
    have before := ih (fun k hk => h k (Nat.lt_succ_of_lt hk))
      (fun k hp hk => hd k hp (Nat.le_succ_of_le hk))
    have height := hd (n + 1) (Nat.succ_pos n) (Nat.le_refl _)
    rw [after_succ] at height ⊢
    exact suffix_step before (h n (Nat.lt_succ_self n)) height

/-- When the stack is first as low again as before a call, the callee has just returned: the
stack is what it was, and the program counter stands after the call. -/
theorem returned_of_depth_eq {a : Word} {n : Nat} (hf : m.fetch = .ok (.call a))
    (hc : m.step.result = .ok ())
    (run : ∀ k < n, (m.step.machine.after k).step.result = .ok ())
    (deeper : ∀ k, 0 < k → k < n → m.stack.depth < (m.step.machine.after k).stack.depth)
    (level : (m.step.machine.after n).stack.depth = m.stack.depth) :
    (m.step.machine.after (n - 1)).fetch = .ok .ret ∧
      (m.step.machine.after n).stack = m.stack ∧
      (m.step.machine.after n).pc.toNat = m.pc.toNat + 2 := by
  have entered : m.step.machine.stack.entries = (m.pc + 2) :: m.stack.entries := by
    rcases stack_step hc with ⟨t, -, -, hs⟩ | ⟨hr, -⟩ | ⟨i, hi, hn, -, -⟩
    · exact hs
    · cases hf.symm.trans hr
    · cases hf.symm.trans hi
      cases hn
  cases n with
  | zero =>
    have height : m.step.machine.stack.depth = m.stack.depth + 1 := congrArg List.length entered
    exact absurd (height.symm.trans level) (Nat.succ_ne_self _)
  | succ n =>
    have waiting : (m.pc + 2) :: m.stack.entries <:+ (m.step.machine.after n).stack.entries := by
      apply suffix_after (entered ▸ List.suffix_rfl) fun k hk => run k (Nat.lt_succ_of_lt hk)
      intro k hp hk
      exact deeper k hp (Nat.lt_succ_of_le hk)
    rw [after_succ] at level ⊢
    obtain ⟨hr, hs, hp⟩ :=
      return_of_depth_le waiting (run n (Nat.lt_succ_self n)) (Nat.le_of_eq level)
    exact ⟨hr, congrArg CallStack.mk hs, hp ▸ m.toNat_next (m.fetch_eq_ok_iff.mp hf).1⟩

/-- A machine about to call 0x206, from where 0x20A is called in turn. -/
def twoCalls : Machine where
  screen := .blank
  registers := .zero
  memory := ⟨Memory.zero.bytes
    |>.set 0x200 0x22 |>.set 0x201 0x06
    |>.set 0x206 0x22 |>.set 0x207 0x0A
    |>.set 0x208 0x00 |>.set 0x209 0xEE
    |>.set 0x20A 0x00 |>.set 0x20B 0xEE⟩
  stack := .empty
  pc := Memory.programStart
  index := 0
  halted := false
  random := ⟨.replicate 8 0, 0⟩

theorem returned_twoCalls : (twoCalls.step.machine.after (3 - 1)).fetch = .ok .ret ∧
    (twoCalls.step.machine.after 3).stack = twoCalls.stack ∧
    (twoCalls.step.machine.after 3).pc.toNat = twoCalls.pc.toNat + 2 := by
  have entered : twoCalls.fetch = .ok (.call 0x206) ∧ twoCalls.step.result = .ok () := by
    decide +kernel
  apply returned_of_depth_eq entered.1 entered.2
  · decide +kernel
  · rintro (_ | _ | _ | k) hp hk
    · cases hp
    · decide +kernel
    · decide +kernel
    · omega
  · decide +kernel

end Machine

end Chip8
