import Chip8.Proofs.Instruction.Canonical
import Chip8.Proofs.Instruction.Mnemonic
import Chip8.Proofs.Machine.Trace

/-! # What a line of a trace tells

A line shows the place of an instruction and its mnemonic, and both can be read off
again. It does not show the word, so that of the comparison of two registers the digit
that decoding ignores is lost, and nothing else.
-/

namespace Chip8

theorem Record.executionText_inj {pc pc' : Word} {i i' : Instruction} (low : pc.toNat < 4096)
    (low' : pc'.toNat < 4096) :
    executionText pc i = executionText pc' i' ↔ pc = pc' ∧ i = i' := by
  constructor
  · intro same
    have characters := congrArg String.toList same
    simp only [executionText, String.toList_append, String.toList_ofList, List.append_assoc,
      List.append_cancel_left_eq, List.cons_append, List.nil_append, List.cons.injEq] at characters
    obtain ⟨first, second, third, rest⟩ := characters
    have places := Hexadecimal.capital_inj (by omega) (by omega) first
    have places' := Hexadecimal.capital_inj (by omega) (by omega) second
    have places'' := Hexadecimal.capital_inj (by omega) (by omega) third
    refine ⟨UInt16.toNat_inj.mp (by omega), ?_⟩
    exact Instruction.mnemonic_injective (String.toList_inj.mp rest)
  · rintro ⟨rfl, rfl⟩
    rfl

namespace Machine

variable {m m' : Machine} {r r' : Record}

theorem mem_records_step_iff :
    r ∈ m.step.records ↔ ∃ i, m.executing? = some i ∧ r = .executing m.pc i := by
  rw [records_step]
  cases m.executing? <;> simp

theorem decode_word_of_executing {i : Instruction} (h : m.executing? = some i) :
    Instruction.decode m.word = some i :=
  (m.fetch_eq_ok_iff.mp (m.executing?_eq_some_iff.mp h).2).2

/-- The lines of two steps agree if these stood at one place and decoded words that are the same
but for the digit that the comparison of two registers ignores. -/
theorem text_eq_text_iff (h : r ∈ m.step.records) (h' : r' ∈ m'.step.records) :
    r.text = r'.text ↔ m.pc = m'.pc ∧
      (m.word = m'.word ∨ m.word.toNat / 4096 = m'.word.toNat / 4096 ∧
        (m.word.toNat / 4096 = 5 ∨ m.word.toNat / 4096 = 9) ∧
        m.word.toNat / 256 % 16 = m'.word.toNat / 256 % 16 ∧
        m.word.toNat / 16 % 16 = m'.word.toNat / 16 % 16) := by
  obtain ⟨i, hi, rfl⟩ := mem_records_step_iff.mp h
  obtain ⟨i', hi', rfl⟩ := mem_records_step_iff.mp h'
  have low := Nat.lt_succ_of_lt (pc_lt_of_executing hi)
  have low' := Nat.lt_succ_of_lt (pc_lt_of_executing hi')
  have decoded := decode_word_of_executing hi
  have decoded' := decode_word_of_executing hi'
  have same : i = i' ↔ m.word.canonical = m'.word.canonical := by
    rw [← Instruction.decode_eq_decode_iff (decoded ▸ nofun) (decoded' ▸ nofun), decoded, decoded',
      Option.some.injEq]
  rw [Record.text_executing low, Record.text_executing low', Record.executionText_inj low low',
    same, Word.canonical_eq_iff]

def about (w : Word) : Machine := (fresh ⟨.replicate 8 0, 0⟩).leftBy [.writeWord 0x200 w]

theorem text_ne_text_loads :
    Record.executing 0x200 (.load 0 0x10) ∈ (about 0x6010).step.records ∧
    Record.executing 0x200 (.combine .copy 0 1) ∈ (about 0x8010).step.records ∧
    (Record.executing 0x200 (.load 0 0x10)).text ≠
      (Record.executing 0x200 (.combine .copy 0 1)).text := by
  have recorded : Record.executing 0x200 (.load 0 0x10) ∈ (about 0x6010).step.records ∧
      Record.executing 0x200 (.combine .copy 0 1) ∈ (about 0x8010).step.records := by
    decide +kernel
  refine ⟨recorded.1, recorded.2, ?_⟩
  intro same
  exact absurd ((text_eq_text_iff recorded.1 recorded.2).mp same).2 (by decide +kernel)

/-- A line does not tell which of two comparisons of the same registers was executed. -/
theorem word_not_told : ¬ ∀ m m' : Machine, m.halted = false → m'.halted = false →
    ∀ r ∈ m.step.records, ∀ r' ∈ m'.step.records,
      r.text = r'.text → m.pc = m'.pc ∧ m.word = m'.word := by
  intro told
  have line : Record.executing 0x200 (.skip .equal 1 (.register 2)) ∈
      (about 0x5120).step.records := by decide +kernel
  have line' : Record.executing 0x200 (.skip .equal 1 (.register 2)) ∈
      (about 0x5121).step.records := by decide +kernel
  have same : (about 0x5120).word = (about 0x5121).word := (told _ _ rfl rfl _ line _ line' rfl).2
  exact absurd same (by decide +kernel)

end Machine

end Chip8
