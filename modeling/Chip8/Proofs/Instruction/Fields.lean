import Chip8.Proofs.Guarded.Word
import Chip8.Proofs.Text.Numeral

/-! # Reading the fields of a word

Fields that are read one after another, in any order and of any widths, are the digits
of the word from the left. Each of them fits the digits that it takes, so that a byte
has room for every field but an address, and written side by side again they are the
digits that were read.
-/

namespace Chip8

open Hexadecimal

namespace DigitReader

def span (fs : List Field) : Nat := (fs.map Field.width).sum

@[simp] theorem span_cons (f : Field) (fs : List Field) : span (f :: fs) = f.width + span fs := rfl

/-- The numbers in some fields of a word that follow one another from a digit on. -/
def cut (w : Word) : Nat → List Field → List Word
  | _, [] => []
  | next, f :: fs => w.digits next f.width :: cut w (next + f.width) fs

/-- A field as it is handed on: an address in a word, any other field in a byte. -/
def result : Field → Read Nat
  | .address => return (← field .address).toNat
  | f => return (← smallField f).toNat

def results (w : Word) (fs : List Field) : Option (List Nat) := (fs.mapM result).run' (start w)

/-- Numbers written one after another, each with the digits of its field. -/
def written (fs : List Field) (ns : List Nat) : List Char :=
  (List.zipWith (fun f n => lastDigits f.width n) fs ns).flatten

variable {w : Word} {f : Field} {fs : List Field} {next : Nat}

section Sequence

variable {m : Type → Type} [Monad m] [LawfulMonad m] {α : Type}

theorem run_mapM {read : Field → StateT DigitReader m α} (view : Word → α)
    (step : ∀ (f : Field) (next : Nat), 1 ≤ next → next + f.width ≤ 5 →
      (read f).run ⟨w, next⟩ = pure (view (w.digits next f.width), ⟨w, next + f.width⟩))
    (hn : 1 ≤ next) (hs : next + span fs ≤ 5) :
    (fs.mapM read).run ⟨w, next⟩ = pure ((cut w next fs).map view, ⟨w, next + span fs⟩) := by
  induction fs generalizing next with
  | nil => rfl
  | cons f fs ih =>
    rw [span_cons, ← Nat.add_assoc] at hs
    have first := step f next hn (by omega)
    simp [List.mapM_cons, first, ih (by omega) hs, cut, Nat.add_assoc]

theorem Cuts.run'_mapM {field : Field → StateT DigitReader m Word} (h : Cuts field w)
    (few : 1 + span fs ≤ 5) : (fs.mapM field).run' (start w) = pure (cut w 1 fs) := by
  rw [StateT.run'_eq, start, run_mapM id h (by decide) few, List.map_id, map_pure]

end Sequence

theorem toNat_digits_lt (hn : 1 ≤ next) (hf : next + f.width ≤ 5) :
    (w.digits next f.width).toNat < 16 ^ f.width := by
  rw [Word.toNat_digits w hn f.width_pos hf]
  exact Nat.mod_lt _ (Nat.pow_pos (by decide))

theorem run_result (hn : 1 ≤ next) (hf : next + f.width ≤ 5) :
    (result f).run ⟨w, next⟩ = pure ((w.digits next f.width).toNat, ⟨w, next + f.width⟩) := by
  have found : (field f).run ⟨w, next⟩ = some (w.digits next f.width, ⟨w, next + f.width⟩) :=
    cuts_field w f next hn hf
  have small (short : f.width ≤ 2) : (w.digits next f.width).toNat < 256 :=
    Nat.lt_of_lt_of_le (toNat_digits_lt hn hf) (Nat.pow_le_pow_right (by decide) short)
  cases f with
  | address => simp [result, found]
  | identifier | register | nibble | byte => simp [result, smallField, found, small (by decide)]

theorem forall₂_cut (hn : 1 ≤ next) (hs : next + span fs ≤ 5) :
    List.Forall₂ (fun f d => d.toNat < 16 ^ f.width) fs (cut w next fs) := by
  induction fs generalizing next with
  | nil => exact .nil
  | cons f fs ih =>
    rw [span_cons, ← Nat.add_assoc] at hs
    exact .cons (toNat_digits_lt hn (by omega)) (ih (by omega) hs)

theorem written_cut (hn : 1 ≤ next) (hs : next + span fs ≤ 5) :
    written fs ((cut w next fs).map UInt16.toNat) =
      lastDigits (span fs) (w.toNat / 16 ^ (5 - next - span fs)) := by
  induction fs generalizing next with
  | nil => rfl
  | cons f fs ih =>
    rw [span_cons, ← Nat.add_assoc] at hs
    -- the digits behind the other fields are the ones behind all of them
    have rest : 5 - (next + f.width) - span fs = 5 - next - span (f :: fs) := by
      rw [span_cons]
      omega
    have split : 5 - next - span (f :: fs) + span fs = 5 - next - f.width := by
      rw [span_cons]
      omega
    calc written (f :: fs) ((cut w next (f :: fs)).map UInt16.toNat)
      _ = lastDigits f.width (w.digits next f.width).toNat ++
            written fs ((cut w (next + f.width) fs).map UInt16.toNat) := rfl
      _ = lastDigits f.width (w.toNat / 16 ^ (5 - next - f.width)) ++
            lastDigits (span fs) (w.toNat / 16 ^ (5 - next - span (f :: fs))) := by
          rw [Word.toNat_digits w hn f.width_pos (by omega), lastDigits_mod, ih (by omega) hs,
            rest]
      _ = lastDigits (span (f :: fs)) (w.toNat / 16 ^ (5 - next - span (f :: fs))) := by
          rw [span_cons, lastDigits_add, Nat.div_div_eq_div_mul, ← Nat.pow_add, ← span_cons, split]

end DigitReader

end Chip8
