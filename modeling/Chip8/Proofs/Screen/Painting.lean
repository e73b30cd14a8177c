import Chip8.Proofs.Screen.Sprite

/-! # What painting does

A sprite is painted down to the bottom edge or to the first of its bytes that memory
does not have, whichever comes first. The rows before that show their bits and no
other cell is touched. An answer is given if no byte was missed, and it tells whether a
set bit fell on a cell that was set before all of it.
-/

namespace Chip8

namespace Screen

/-- What painting a sprite leaves and answers, when the given number of its rows are visible and
the given number of these can be read. Each row that is looked at has an address, so that what
is missed is a byte and not its address. -/
structure Painted (s : Screen) (m : Memory) (x y : Nat) (a : Address) (visible readable : Nat)
    (o : Screen × Except Fault Bool) : Prop where
  covered : ∀ px py, Covers x y readable px py →
    o.1.pixel px py = (m.byte (a.toNat + (py - y))).toNat.testBit (7 - (px - x))
  uncovered : ∀ px py, ¬ Covers x y readable px py → o.1.pixel px py = s.pixel px py
  whole : (∃ collision, o.2 = .ok collision) ↔ readable = visible
  collides : ∀ collision, o.2 = .ok collision → (collision = true ↔
    ∃ px py, Covers x y readable px py ∧ s.pixel px py = true ∧
      (m.byte (a.toNat + (py - y))).toNat.testBit (7 - (px - x)) = true)
  cut : readable < visible → o.2 = .error (.outOfBounds (.ofNat (max a.toNat 4096)))
  addressed : ∀ i < visible, i ≤ readable →
    ∃ b, a.offset i = .ok b ∧ b.toNat = a.toNat + i ∧ ((m.read b).isOk ↔ i < readable)

namespace Painted

variable {s : Screen} {m : Memory} {x y : Nat} {a : Address} {visible readable : Nat}
  {o : Screen × Except Fault Bool}

theorem screen_eq (h : Painted s m x y a visible readable o)
    (none : ∀ px py, ¬ Covers x y readable px py) : o.1 = s :=
  ext_pixel fun px _ py _ => h.uncovered px py (none px py)

theorem eq_of_nothing (h : Painted s m x y a 0 0 o) : o = (s, .ok false) := by
  have none : ∀ px py, ¬ Covers x y 0 px py := by
    intro px py covered
    unfold Covers at covered
    omega
  obtain ⟨c, hc⟩ := h.whole.mpr rfl
  have clear : c = false := by
    rw [Bool.eq_false_iff, Ne, h.collides c hc]
    rintro ⟨px, py, covered, -⟩
    exact none px py covered
  exact Prod.ext (h.screen_eq none) (clear ▸ hc)

theorem failed_iff (h : Painted s m x y a visible readable o) (le : readable ≤ visible) :
    (∃ f, o.2 = .error f) ↔ readable < visible := by
  constructor
  · rintro ⟨f, hf⟩
    apply Nat.lt_of_le_of_ne le
    intro whole
    obtain ⟨c, hc⟩ := h.whole.mpr whole
    cases hc.symm.trans hf
  · intro missing
    exact ⟨_, h.cut missing⟩

end Painted

variable (s : Screen) (m : Memory) (x y : UInt8) (a : Address) (rows : UInt8)

theorem visibleRows_eq :
    visibleRows y rows = if y.toNat < 32 then min (rows.toNat % 16) (32 - y.toNat) else 0 := by
  unfold visibleRows
  split <;> omega

theorem readableRows_eq : readableRows y a rows =
    if a.toNat < 4096 then min (visibleRows y rows) (4096 - a.toNat) else 0 := by
  rw [readableRows_eq_min]
  split <;> omega

theorem offset_of_le_readable {i : Nat} (hv : i < visibleRows y rows)
    (hr : i ≤ readableRows y a rows) :
    ∃ b, a.offset i = .ok b ∧ b.toNat = a.toNat + i ∧
      ((m.read b).isOk ↔ i < readableRows y a rows) := by
  have few : visibleRows y rows ≤ 15 := by
    unfold visibleRows
    omega
  rw [readableRows_eq_min] at hr ⊢
  have fits : a.toNat + i < UInt64.size := by
    have size : UInt64.size = 2 ^ 64 := rfl
    have := a.toNat_lt
    omega
  have sum := a.toNat_add_ofNat fits
  refine ⟨a + UInt64.ofNat i, Address.offset_eq_ok fits, sum, ?_⟩
  rw [m.read_eq, sum]
  split
  · simp [Except.isOk, Except.toBool]
    omega
  · simp [Except.isOk, Except.toBool]
    omega

theorem painted : Painted s m x.toNat y.toNat a (visibleRows y rows) (readableRows y a rows)
    (s.paint m x y a rows) := by
  have pixels := fun px py => s.pixel_paint px py m a x y rows
  have addressed := fun i hv hr => offset_of_le_readable m y a rows (i := i) hv hr
  rcases Nat.lt_or_ge (4096 - a.toNat) (visibleRows y rows) with cut | whole
  · have short : readableRows y a rows ≠ visibleRows y rows := by
      rw [readableRows_eq_min]
      omega
    have answer := s.snd_paint_eq_error m a x y rows cut
    exact {
      covered := fun px py h => (pixels px py).trans (if_pos h)
      uncovered := fun px py h => (pixels px py).trans (if_neg h)
      whole := by simp [answer, short]
      collides := fun _ h => nomatch answer.symm.trans h
      cut := fun _ => answer
      addressed }
  · have all : readableRows y a rows = visibleRows y rows := Nat.min_eq_left whole
    obtain ⟨c, answer, hc⟩ := s.snd_paint_eq_ok m a x y rows whole
    exact {
      covered := fun px py h => (pixels px py).trans (if_pos h)
      uncovered := fun px py h => (pixels px py).trans (if_neg h)
      whole := by simp [answer, all]
      collides := fun c' h => Except.ok.inj (answer.symm.trans h) ▸ hc
      cut := fun h => absurd all (Nat.ne_of_lt h)
      addressed }

/-- Painting shows the visible rows of a sprite as far as they can be read, tells whether they
collided if that is all of them, and otherwise names the first address that memory lacks. A sprite
below the bottom edge or without rows is painted wherever its bytes should be, and one beyond the
right edge leaves the screen alone but is read all the same. -/
theorem paint_exact :
    let visible := if y.toNat < 32 then min (rows.toNat % 16) (32 - y.toNat) else 0
    let readable := if a.toNat < 4096 then min visible (4096 - a.toNat) else 0
    Painted s m x.toNat y.toNat a visible readable (s.paint m x y a rows) ∧
      (32 ≤ y.toNat ∨ rows.toNat % 16 = 0 → s.paint m x y a rows = (s, .ok false)) ∧
      (64 ≤ x.toNat → (s.paint m x y a rows).1 = s ∧
        ((∃ f, (s.paint m x y a rows).2 = .error f) ↔ readable < visible)) := by
  intro visible readable
  have le : readable ≤ visible := by
    simp only [readable]
    split <;> omega
  have all : Painted s m x.toNat y.toNat a visible readable (s.paint m x y a rows) := by
    have all := s.painted m x y a rows
    rwa [readableRows_eq, visibleRows_eq] at all
  refine ⟨all, ?_, ?_⟩
  · intro below
    have nothing : visible = 0 := by
      simp only [visible]
      split <;> omega
    have none_read : readable = 0 := Nat.le_zero.mp (nothing ▸ le)
    rw [nothing, none_read] at all
    exact all.eq_of_nothing
  · intro right
    refine ⟨all.screen_eq fun px py covered => ?_, all.failed_iff le⟩
    unfold Covers at covered
    omega

end Screen

end Chip8
