import Chip8.Instruction.Basic
import Chip8.Proofs.Text.Numeral
import Mathlib.Logic.Function.Basic

/-! # Reading mnemonics

A mnemonic falls into words, the operation and its operands. The words tell the
instruction, since the operands of one operation differ in how they begin. A text is
read by what its words suggest, if that has the text for its mnemonic.
-/

namespace Chip8

namespace Instruction

/-- The runs of letters and digits of a text. -/
def words (s : String) : List String :=
  ((s.toList.splitOnP (!·.isAlphanum)).filter (!·.isEmpty)).map String.ofList

/-- The operation and the operands of an instruction. -/
def spelling : Instruction → List String
  | clearScreen => ["CLS"]
  | ret => ["RET"]
  | jump a => ["JP", addressText a]
  | call a => ["CALL", addressText a]
  | skip c x o => [c.mnemonic, registerText x, operandText o]
  | load x k => ["LD", registerText x, byteText k]
  | add x k => ["ADD", registerText x, byteText k]
  | combine c x y => [c.mnemonic, registerText x, registerText y]
  | loadIndex a => ["LD", "I", addressText a]
  | jumpOffset a => ["JP", "V0", addressText a]
  | random x k => ["RND", registerText x, byteText k]
  | draw x y n => ["DRW", registerText x, registerText y, toString n.toNat]

section Operands

def registerOf (s : String) : UInt8 := .ofNat (Hexadecimal.value (s.toList.drop 1))

def byteOf (s : String) : UInt8 := .ofNat (Hexadecimal.value (s.toList.drop 2))

def addressOf (s : String) : Word := .ofNat (Hexadecimal.value (s.toList.drop 2))

def countOf (s : String) : UInt8 := .ofNat (Nat.ofDigitChars 10 s.toList 0)

def operandOf (s : String) : Operand :=
  if s.toList.head? = some 'V' then .register (registerOf s) else .byte (byteOf s)

end Operands

/-- The instruction that words suggest. -/
def ofWords : List String → Option Instruction
  | ["CLS"] => some clearScreen
  | ["RET"] => some ret
  | ["JP", a] => some (jump (addressOf a))
  | ["JP", _, a] => some (jumpOffset (addressOf a))
  | ["CALL", a] => some (call (addressOf a))
  | ["SE", x, o] => some (skip .equal (registerOf x) (operandOf o))
  | ["SNE", x, o] => some (skip .notEqual (registerOf x) (operandOf o))
  | ["LD", "I", a] => some (loadIndex (addressOf a))
  | ["LD", x, o] =>
    match operandOf o with
    | .byte k => some (load (registerOf x) k)
    | .register y => some (combine .copy (registerOf x) y)
  | ["ADD", x, k] => some (add (registerOf x) (byteOf k))
  | ["OR", x, y] => some (combine .or (registerOf x) (registerOf y))
  | ["AND", x, y] => some (combine .and (registerOf x) (registerOf y))
  | ["XOR", x, y] => some (combine .xor (registerOf x) (registerOf y))
  | ["RND", x, k] => some (random (registerOf x) (byteOf k))
  | ["DRW", x, y, n] => some (draw (registerOf x) (registerOf y) (countOf n))
  | _ => none

/-- The instruction that a text is the mnemonic of, if there is one. -/
def ofMnemonic? (s : String) : Option Instruction := (ofWords (words s)).filter (·.mnemonic = s)

@[simp] theorem registerOf_registerText (x : UInt8) : registerOf (registerText x) = x := by
  simp [registerOf, registerText, Hexadecimal.numeral, Hexadecimal.value_padded]

@[simp] theorem byteOf_byteText (k : UInt8) : byteOf (byteText k) = k := by
  simp [byteOf, byteText, Hexadecimal.numeral, Hexadecimal.value_padded]

@[simp] theorem addressOf_addressText (a : Word) : addressOf (addressText a) = a := by
  simp [addressOf, addressText, Hexadecimal.numeral, Hexadecimal.value_padded]

@[simp] theorem countOf_repr (n : UInt8) : countOf n.toNat.repr = n := by
  simp [countOf, Nat.ofDigitChars_ten_toDigits]

@[simp] theorem operandOf_operandText (o : Operand) : operandOf (operandText o) = o := by
  cases o with
  | byte k =>
    have digits : (byteText k).toList.head? ≠ some 'V' := by simp [byteText]
    rw [operandText, operandOf, if_neg digits, byteOf_byteText]
  | register y =>
    have letter : (registerText y).toList.head? = some 'V' := by simp [registerText]
    rw [operandText, operandOf, if_pos letter, registerOf_registerText]

theorem registerText_ne_index (x : UInt8) : registerText x ≠ "I" := by
  intro h
  have first := congrArg (·.toList.head?) h
  simp [registerText] at first

theorem ofWords_spelling (i : Instruction) : ofWords i.spelling = some i := by
  cases i with
  | skip c x o => cases c <;> simp [spelling, Comparison.mnemonic, ofWords]
  | combine c x y =>
    have operand : operandOf (registerText y) = .register y := operandOf_operandText (.register y)
    cases c <;> simp [spelling, Combination.mnemonic, ofWords, operand, registerText_ne_index]
  | load x k =>
    have operand : operandOf (byteText k) = .byte k := operandOf_operandText (.byte k)
    simp [spelling, ofWords, operand, registerText_ne_index]
  | _ => simp [spelling, ofWords]

section Words

def IsWord (s : String) : Prop := s ≠ "" ∧ s.toList.all Char.isAlphanum = true

instance : DecidablePred IsWord := fun _ => inferInstanceAs (Decidable (_ ∧ _))

variable {s t gap : String}

theorem IsWord.append (hs : IsWord s) (ht : t.toList.all Char.isAlphanum = true) :
    IsWord (s ++ t) := by
  refine ⟨by simp [hs.1], ?_⟩
  rw [String.toList_append, List.all_append, hs.2, ht]
  rfl

theorem words_of_isWord (h : IsWord s) : words s = [s] := by
  have whole : s.toList.splitOnP (!·.isAlphanum) = [s.toList] :=
    List.splitOnP_eq_singleton fun c hc => by simp [List.all_eq_true.mp h.2 c hc]
  simp [words, whole, h.1]

theorem words_skip {cs : List Char} (rest : List Char) (h : cs.all (!·.isAlphanum) = true) :
    ((cs ++ rest).splitOnP (!·.isAlphanum)).filter (!·.isEmpty) =
      (rest.splitOnP (!·.isAlphanum)).filter (!·.isEmpty) := by
  induction cs with
  | nil => rfl
  | cons c cs ih =>
    rw [List.all_cons, Bool.and_eq_true] at h
    simp only [List.cons_append, List.splitOnP_cons_eq_if_modifyHead, h.1, if_true, ← ih h.2]
    rfl

theorem words_append (hs : IsWord s) (wide : gap ≠ "")
    (hgap : gap.toList.all (!·.isAlphanum) = true) : words (s ++ gap ++ t) = s :: words t := by
  obtain ⟨c, cs, hc⟩ := List.exists_cons_of_ne_nil (mt String.toList_eq_nil_iff.mp wide)
  rw [hc, List.all_cons, Bool.and_eq_true] at hgap
  have split : (s.toList ++ c :: (cs ++ t.toList)).splitOnP (!·.isAlphanum) =
      s.toList :: (cs ++ t.toList).splitOnP (!·.isAlphanum) := by
    apply List.splitOnP_append_cons_of_forall_mem
    · intro d hd
      simp [List.all_eq_true.mp hs.2 d hd]
    · exact hgap.1
  have rest := words_skip t.toList hgap.2
  simp [words, hc, split, rest, hs.1]

end Words

def join : List String → String
  | [] => ""
  | [name] => name
  | name :: operands => name ++ " " ++ ", ".intercalate operands

theorem words_intercalate {ws : List String} (h : ∀ w ∈ ws, IsWord w) :
    words (", ".intercalate ws) = ws := by
  induction ws with
  | nil => rfl
  | cons w ws ih =>
    have rest := ih fun v hv => h v (List.mem_cons_of_mem w hv)
    have word := h w List.mem_cons_self
    cases ws with
    | nil => rw [String.intercalate_singleton, words_of_isWord word]
    | cons v vs =>
      rw [String.intercalate_cons_cons, words_append word (by decide) (by decide), rest]

theorem words_join {ws : List String} (h : ∀ w ∈ ws, IsWord w) : words (join ws) = ws := by
  match ws with
  | [] => rfl
  | [name] => exact words_of_isWord (h name List.mem_cons_self)
  | name :: o :: os =>
    have operands := words_intercalate fun v hv => h v (List.mem_cons_of_mem name hv)
    rw [join, words_append (h name List.mem_cons_self) (by decide) (by decide), operands]
    exact nofun

theorem mnemonic_eq_join (i : Instruction) : i.mnemonic = join i.spelling := by
  apply String.toList_inj.mp
  cases i <;> simp [mnemonic, spelling, join]

section Spelling

theorem isWord_registerText (x : UInt8) : IsWord (registerText x) :=
  IsWord.append ⟨by decide, by decide⟩ (Hexadecimal.all_isAlphanum_numeral _ _)

theorem isWord_byteText (k : UInt8) : IsWord (byteText k) :=
  IsWord.append ⟨by decide, by decide⟩ (Hexadecimal.all_isAlphanum_numeral _ _)

theorem isWord_addressText (a : Word) : IsWord (addressText a) :=
  IsWord.append ⟨by decide, by decide⟩ (Hexadecimal.all_isAlphanum_numeral _ _)

theorem isWord_operandText (o : Operand) : IsWord (operandText o) := by
  cases o with
  | byte k => exact isWord_byteText k
  | register y => exact isWord_registerText y

theorem isWord_repr (n : Nat) : IsWord n.repr := by
  refine ⟨Nat.repr_ne_empty, List.all_eq_true.mpr ?_⟩
  intro c hc
  rw [Nat.toList_repr] at hc
  have digit : c.isDigit = true := Nat.isDigit_of_mem_toDigits (by decide) (by decide) hc
  simp [Char.isAlphanum, digit]

theorem isWord_of_mem_spelling (i : Instruction) : ∀ w ∈ i.spelling, IsWord w := by
  have register := isWord_registerText
  have address := isWord_addressText
  have byte := isWord_byteText
  cases i with
  | clearScreen | ret => decide
  | jump a | call a | loadIndex a | jumpOffset a =>
    simp only [spelling, List.forall_mem_cons, address]
    decide
  | skip c x o =>
    cases c <;>
    · simp only [spelling, List.forall_mem_cons, register, isWord_operandText]
      decide
  | combine c x y =>
    cases c <;>
    · simp only [spelling, List.forall_mem_cons, register]
      decide
  | load x k | add x k | random x k =>
    simp only [spelling, List.forall_mem_cons, register, byte]
    decide
  | draw x y n =>
    simp only [spelling, List.forall_mem_cons, register, Nat.toString_eq_repr, isWord_repr]
    decide

end Spelling

theorem ofWords_words_mnemonic (i : Instruction) : ofWords (words i.mnemonic) = some i := by
  rw [mnemonic_eq_join, words_join i.isWord_of_mem_spelling, ofWords_spelling]

theorem ofMnemonic?_eq_some_iff {s : String} {i : Instruction} :
    ofMnemonic? s = some i ↔ i.mnemonic = s := by
  rw [ofMnemonic?, Option.filter_eq_some_iff, decide_eq_true_eq]
  constructor
  · exact And.right
  · rintro rfl
    exact ⟨i.ofWords_words_mnemonic, rfl⟩

theorem mnemonic_injective : Function.Injective mnemonic := by
  intro i j same
  have read := ofMnemonic?_eq_some_iff.mpr same
  exact Option.some.inj (read.symm.trans (ofMnemonic?_eq_some_iff.mpr rfl))

/-- Instructions with one mnemonic are one instruction, whatever their fields hold, and reading
a text finds the instruction whose mnemonic it is. -/
theorem mnemonic_unambiguous :
    (∀ i j : Instruction, i.mnemonic = j.mnemonic → i = j) ∧
      (∀ i : Instruction, ofMnemonic? i.mnemonic = some i) ∧
      ∀ s i, ofMnemonic? s = some i → i.mnemonic = s :=
  ⟨fun _ _ same => mnemonic_injective same, fun _ => ofMnemonic?_eq_some_iff.mpr rfl,
    fun _ _ read => ofMnemonic?_eq_some_iff.mp read⟩

end Instruction

end Chip8
