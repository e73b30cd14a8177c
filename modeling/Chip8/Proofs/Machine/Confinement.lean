import Chip8.Machine.Operation
import Chip8.Proofs.Instruction.Format
import Chip8.Proofs.Machine.Calls

/-! # Programs stay in their memory

A program that runs by itself neither changes memory nor leaves it, and it only
returns to where it called from. These facts hold one another up: a return address
stands behind a call because memory never changes, and a jump stays near memory
because addresses in instructions are short.
-/

namespace Chip8

/-- An address right behind a word that is a call. -/
def Memory.FollowsCall (m : Memory) (r : Nat) : Prop :=
  2 ≤ r ∧ r ≤ 4096 ∧
    ∃ a, Instruction.decode (.ofBytes (m.byte (r - 2)) (m.byte (r - 1))) = some (.call a)

namespace Machine

/-- What holds of a machine that only ever runs the program in the given memory. -/
structure Confined (program : Memory) (m : Machine) : Prop where
  pc_le : m.pc.toNat ≤ 4095
  index_le : m.index.toNat ≤ 0xFFF
  depth_le : m.stack.depth ≤ 16
  returns : ∀ r ∈ m.stack.entries, m.memory.FollowsCall r.toNat
  memory_eq : m.memory = program

variable {program : Memory} {m : Machine} {i : Instruction} {a : Address}

theorem followsCall_of_fetch {t : Word} (h : m.fetch = .ok (.call t)) :
    m.memory.FollowsCall (m.pc + 2).toNat := by
  obtain ⟨low, hd⟩ := m.fetch_eq_ok_iff.mp h
  rw [m.toNat_next low]
  exact ⟨by omega, by omega, t, hd⟩

theorem inRange_of_fetch (h : m.fetch = .ok i) : i.InRange :=
  Instruction.inRange_of_decode (m.fetch_eq_ok_iff.mp h).2

theorem index_effect_le (hr : i.InRange) (h : m.index.toNat ≤ 0xFFF) :
    (m.effect i).index.toNat ≤ 0xFFF := by
  cases i with
  | loadIndex a => exact Nat.le_of_lt_succ (UInt16.lt_iff_toNat_lt.mp hr)
  | _ => exact h

theorem depth_effect_le (h : m.stack.depth ≤ 16) : (m.effect i).stack.depth ≤ 16 := by
  cases i with
  | ret =>
    have lower : m.popped.depth = m.stack.depth - 1 := by
      rw [CallStack.depth, entries_popped, List.length_tail]
      rfl
    exact lower ▸ (Nat.sub_le _ 1).trans h
  | call t =>
    rcases m.pushed_cases with ⟨-, hs⟩ | ⟨low, hs⟩
    · rw [effect, hs]
      exact h
    · rw [effect, CallStack.depth, hs]
      exact low
  | _ => exact h

theorem mem_entries_effect {r : Word} (h : r ∈ (m.effect i).stack.entries) :
    r ∈ m.stack.entries ∨ r = m.pc + 2 ∧ ∃ t, i = .call t := by
  cases i with
  | ret =>
    rw [effect, entries_popped] at h
    exact Or.inl (List.mem_of_mem_tail h)
  | call t =>
    rw [effect] at h
    rcases m.pushed_cases with ⟨-, hs⟩ | ⟨-, hs⟩
    · rw [hs] at h
      exact Or.inl h
    · rw [hs] at h
      rcases List.mem_cons.mp h with rfl | h
      · exact Or.inr ⟨rfl, t, rfl⟩
      · exact Or.inl h
  | _ => exact Or.inl h

namespace Confined

theorem effect (h : Confined program m) (hf : m.fetch = .ok i) :
    Confined program (m.effect i) where
  pc_le := m.pc_effect i ▸ h.pc_le
  index_le := index_effect_le (inRange_of_fetch hf) h.index_le
  depth_le := depth_effect_le h.depth_le
  returns := by
    intro r hr
    rw [memory_effect]
    rcases mem_entries_effect hr with hr | ⟨rfl, t, rfl⟩
    · exact h.returns r hr
    · exact followsCall_of_fetch hf
  memory_eq := (m.memory_effect i).trans h.memory_eq

theorem toNat_destination_le (h : Confined program m) (hf : m.fetch = .ok i)
    (hd : m.destination i = .ok a) : a.toNat ≤ 0x10FE := by
  have range := inRange_of_fetch hf
  rcases destination_cases hd with
    ⟨rfl, r, hr, rfl⟩ | ⟨t, hi, rfl⟩ | ⟨t, rfl, rfl⟩ | ⟨k, hk, rfl⟩
  · exact (UInt16.toNat_toUInt64 r).trans_le ((h.returns r hr).2.1.trans (by decide))
  · have short : t < 4096 := by
      rcases hi with rfl | rfl <;> exact range
    rw [UInt16.toNat_toUInt64]
    exact (UInt16.lt_iff_toNat_lt.mp short).le.trans (by decide)
  · have short : t.toNat < 4096 := UInt16.lt_iff_toNat_lt.mp range
    have small := (m.registers.get 0).toNat_lt
    rw [UInt64.toNat_add, UInt16.toNat_toUInt64, UInt8.toNat_toUInt64]
    omega
  · have pc := h.pc_le
    rw [m.toNat_pc_add (by omega)]
    omega

theorem step (h : Confined program m) : Confined program m.step.machine := by
  cases m.stepping with
  | halted _ hc =>
    rw [hc]
    exact h
  | unfetched _ _ _ hc =>
    rw [hc]
    exact { h with }
  | stuck i _ _ hf _ hc | outside i _ _ hf _ _ hc =>
    rw [hc]
    exact { h.effect hf with }
  | moved i a _ hf _ ha hc =>
    rw [hc]
    have low : a.toUInt16.toNat ≤ 4095 := by
      rw [UInt64.toNat_toUInt16]
      omega
    exact { h.effect hf with pc_le := low }

theorem after (h : Confined program m) (n : Nat) : Confined program (m.after n) := by
  induction n with
  | zero => exact h
  | succ n ih =>
    rw [after_succ]
    exact ih.step

theorem outOfBounds (h : Confined program m)
    (hr : m.step.result = .error (.fault (.outOfBounds a))) :
    0x1000 ≤ a.toNat ∧ a.toNat ≤ 0x10FE := by
  have pc := h.pc_le
  have index := h.index_le
  rcases outOfBounds_of_step hr with ha | ha | ⟨ha, i, hf, hd⟩
  · omega
  · omega
  · exact ⟨ha, h.toNat_destination_le hf hd⟩

end Confined

def loaded (seed : UInt64) (image : Array UInt8) : Machine :=
  ((ofSeed seed).perform (.load image)).machine

theorem confined_loaded (seed : UInt64) (image : Array UInt8) :
    Confined (loaded seed image).memory (loaded seed image) where
  pc_le := (by decide : Memory.programStart.toNat ≤ 4095)
  index_le := Nat.zero_le _
  depth_le := Nat.zero_le _
  returns := nofun
  memory_eq := rfl

def executed (m : Machine) : Nat → List Instruction
  | 0 => []
  | n + 1 => m.executed n ++ (m.after n).fetch.toOption.toList

theorem depth_add_returns (m : Machine) {n : Nat}
    (h : ∀ c ∈ m.steps n, c.result = .ok ()) :
    (m.after n).stack.depth + (m.executed n).countP Instruction.isReturn =
      m.stack.depth + (m.executed n).countP Instruction.isCall := by
  simp only [mem_steps_iff] at h
  induction n with
  | zero => rfl
  | succ n ih =>
    have before := ih fun c ⟨k, hk, hc⟩ => h c ⟨k, Nat.lt_succ_of_lt hk, hc⟩
    have last := h _ ⟨n, Nat.lt_succ_self n, rfl⟩
    rw [after_succ, executed, List.countP_append, List.countP_append]
    unfold CallStack.depth at before ⊢
    rcases stack_step last with ⟨t, hf, -, hs⟩ | ⟨hf, hs⟩ | ⟨i, hf, hc, hr, hs⟩
    · rw [hs, hf]
      simp [Except.toOption, Instruction.isCall, Instruction.isReturn]
      omega
    · rw [hs] at before
      rw [hf]
      simp [Except.toOption, Instruction.isCall, Instruction.isReturn] at before ⊢
      omega
    · rw [hs, hf]
      simp [Except.toOption, hc, hr]
      omega

/-- A program that runs by itself after it was loaded stays confined to what was loaded, asks
for no address far above memory, and is as deep in calls as it made more of them than returns. -/
theorem confined_after_loaded (seed : UInt64) (image : Array UInt8) (n : Nat) :
    Confined (loaded seed image).memory ((loaded seed image).after n) ∧
      (∀ c ∈ (loaded seed image).steps n, ∀ a, c.result = .error (.fault (.outOfBounds a)) →
        0x1000 ≤ a.toNat ∧ a.toNat ≤ 0x10FE) ∧
      ((∀ c ∈ (loaded seed image).steps n, c.result = .ok ()) →
        (((loaded seed image).after n).stack.depth : Int) =
          ((loaded seed image).executed n).countP Instruction.isCall -
            ((loaded seed image).executed n).countP Instruction.isReturn) := by
  have start := confined_loaded seed image
  refine ⟨start.after n, ?_, ?_⟩
  · intro c hc a ha
    obtain ⟨k, -, rfl⟩ := (mem_steps_iff _).mp hc
    exact (start.after k).outOfBounds ha
  · intro h
    have balance := depth_add_returns _ h
    have empty : (loaded seed image).stack.depth = 0 := rfl
    omega

end Machine

end Chip8
