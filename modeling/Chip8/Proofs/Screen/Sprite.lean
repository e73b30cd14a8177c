import Chip8.Proofs.Memory.Access
import Chip8.Screen

/-! # Sprites on the screen

A sprite covers the cells of its eight columns and of its rows as far as they lie
on the grid. Drawing gives each covered cell its bit of the sprite and collides
where such a cell was set before and its bit is set.
-/

namespace Chip8

namespace Screen

/-- Whether a cell of the grid lies under a sprite with the given corner and number of rows. -/
def Covers (x y rows px py : Nat) : Prop :=
  (x ≤ px ∧ px < x + 8 ∧ px < 64) ∧ y ≤ py ∧ py < y + rows ∧ py < 32

instance (x y rows px py : Nat) : Decidable (Covers x y rows px py) :=
  inferInstanceAs (Decidable ((_ ∧ _ ∧ _) ∧ _ ∧ _ ∧ _))

variable (s : Screen) (x y px py : Nat)

theorem ext_pixel {s s' : Screen} (h : ∀ x < 64, ∀ y < 32, s.pixel x y = s'.pixel x y) :
    s = s' := by
  cases s with
  | mk pixels =>
    cases s' with
    | mk pixels' =>
      congr 1
      apply Vector.ext
      intro i hi
      have hp := h (i % 64) (by omega) (i / 64) (by omega)
      simpa [pixel, show i % 64 < 64 ∧ i / 64 < 32 by omega, Nat.div_add_mod] using hp

theorem inside_of_pixel {s : Screen} {px py : Nat} (h : s.pixel px py = true) :
    px < 64 ∧ py < 32 := by
  unfold pixel at h
  split at h
  · assumption
  · cases h

theorem covers_succ_iff {x y rows px py : Nat} : Covers x y (rows + 1) px py ↔
    Covers x y 1 px py ∨ Covers x (y + 1) rows px py := by
  unfold Covers
  omega

theorem eq_of_covers_one {x y px py : Nat} (h : Covers x y 1 px py) : py = y := by
  unfold Covers at h
  omega

theorem lt_of_covers_succ {x y rows px py : Nat} (h : Covers x (y + 1) rows px py) : y < py := by
  unfold Covers at h
  omega

theorem getD_cons_sub (b : UInt8) (bs : List UInt8) (h : y < py) :
    (b :: bs).getD (py - y) 0 = bs.getD (py - (y + 1)) 0 := by
  obtain ⟨k, rfl⟩ := Nat.exists_eq_add_of_lt h
  have low : y + k + 1 - y = k + 1 := by omega
  have high : y + k + 1 - (y + 1) = k := by omega
  rw [low, high, List.getD_cons_succ]

theorem pixel_drawRow_eq (b : UInt8) :
    (s.drawRow x y b).pixel px py =
      if Covers x y 1 px py then spriteBit b (px - x) else s.pixel px py := by
  rw [pixel_drawRow]
  congr 1
  unfold Covers
  apply propext
  omega

/-- A cell of a drawn sprite holds its bit, any other cell is left alone. -/
theorem pixel_drawRows (bs : List UInt8) :
    (s.drawRows x y bs).1.pixel px py =
      if Covers x y bs.length px py then spriteBit (bs.getD (py - y) 0) (px - x)
      else s.pixel px py := by
  induction bs generalizing s y with
  | nil =>
    rw [if_neg (by unfold Covers; simp; omega)]
    rfl
  | cons b bs ih =>
    rw [drawRows, ih, pixel_drawRow_eq, List.length_cons]
    by_cases below : Covers x (y + 1) bs.length px py
    · rw [if_pos below, if_pos (covers_succ_iff.mpr (Or.inr below)),
        getD_cons_sub y py b bs (lt_of_covers_succ below)]
    · rw [if_neg below]
      by_cases first : Covers x y 1 px py
      · rw [if_pos first, if_pos (covers_succ_iff.mpr (Or.inl first)), eq_of_covers_one first,
          Nat.sub_self, List.getD_cons_zero]
      · rw [if_neg first, if_neg]
        exact fun cover => (covers_succ_iff.mp cover).elim first below

theorem rowCollides_iff (b : UInt8) :
    s.rowCollides x y b = true ↔
      ∃ px py, Covers x y 1 px py ∧ s.pixel px py = true ∧ spriteBit b (px - x) = true := by
  simp only [rowCollides, List.any_eq_true, List.mem_range, Bool.and_eq_true]
  constructor
  · rintro ⟨j, hj, hs, hb⟩
    have inside := inside_of_pixel hs
    refine ⟨x + j, y, ?_, hs, by simpa using hb⟩
    unfold Covers
    omega
  · rintro ⟨px, py, hc, hs, hb⟩
    obtain rfl := eq_of_covers_one hc
    unfold Covers at hc
    refine ⟨px - x, by omega, ?_, hb⟩
    rwa [Nat.add_sub_cancel' hc.1.1]

/-- A sprite collides where a set bit of it falls on a cell that was set before all of it. -/
theorem drawRows_collides_iff (bs : List UInt8) :
    (s.drawRows x y bs).2 = true ↔
      ∃ px py, Covers x y bs.length px py ∧ s.pixel px py = true ∧
        spriteBit (bs.getD (py - y) 0) (px - x) = true := by
  induction bs generalizing s y with
  | nil =>
    simp only [drawRows, Bool.false_eq_true, false_iff]
    rintro ⟨px, py, hc, -⟩
    unfold Covers at hc
    simp only [List.length_nil] at hc
    omega
  | cons b bs ih =>
    rw [drawRows, Bool.or_eq_true, rowCollides_iff, ih]
    constructor
    · rintro (⟨px, py, hc, hs, hb⟩ | ⟨px, py, hc, hs, hb⟩)
      · refine ⟨px, py, covers_succ_iff.mpr (Or.inl hc), hs, ?_⟩
        rwa [eq_of_covers_one hc, Nat.sub_self, List.getD_cons_zero]
      · have apart : ¬ Covers x y 1 px py :=
          fun h => Nat.ne_of_gt (lt_of_covers_succ hc) (eq_of_covers_one h)
        rw [pixel_drawRow_eq, if_neg apart] at hs
        refine ⟨px, py, covers_succ_iff.mpr (Or.inr hc), hs, ?_⟩
        rwa [getD_cons_sub y py b bs (lt_of_covers_succ hc)]
    · rintro ⟨px, py, hc, hs, hb⟩
      rcases covers_succ_iff.mp hc with first | below
      · rw [eq_of_covers_one first, Nat.sub_self, List.getD_cons_zero] at hb
        exact Or.inl ⟨px, py, first, hs, hb⟩
      · have apart : ¬ Covers x y 1 px py :=
          fun h => Nat.ne_of_gt (lt_of_covers_succ below) (eq_of_covers_one h)
        rw [getD_cons_sub y py b bs (lt_of_covers_succ below)] at hb
        refine Or.inr ⟨px, py, below, ?_, hb⟩
        rwa [pixel_drawRow_eq, if_neg apart]

section Paint

variable (m : Memory) (a : Address)

/-- How many rows of a sprite lie above the bottom edge and can be read from an address on. -/
def readableRows (y : UInt8) (a : Address) (rows : UInt8) : Nat :=
  min (min (rows.toNat % 16) (32 - y.toNat)) (4096 - a.toNat)

def spriteBitAt (m : Memory) (x y : Nat) (a : Address) (px py : Nat) : Bool :=
  (m.byte (a.toNat + (py - y))).toNat.testBit (7 - (px - x))

theorem readableRows_eq_min (y : UInt8) (a : Address) (rows : UInt8) :
    readableRows y a rows = min (visibleRows y rows) (4096 - a.toNat) := rfl

variable (x y rows : UInt8)

theorem fst_paint : (s.paint m x y a rows).1 =
    (s.drawRows x.toNat y.toNat ((List.range' a.toNat (readableRows y a rows)).map m.byte)).1 := by
  simp only [paint, m.readUpTo_eq a]
  rfl

theorem snd_paint : (s.paint m x y a rows).2 =
    if visibleRows y rows ≤ 4096 - a.toNat then
      .ok (s.drawRows x.toNat y.toNat
        ((List.range' a.toNat (readableRows y a rows)).map m.byte)).2
    else .error (.outOfBounds (.ofNat (max a.toNat 4096))) := by
  by_cases h : visibleRows y rows ≤ 4096 - a.toNat
  · simp only [paint, m.readUpTo_eq a, if_pos h]
    rfl
  · simp only [paint, m.readUpTo_eq a, if_neg h]

/-- Drawing reads no byte but those of the readable rows. -/
theorem paint_congr {m m' : Memory} (h : ∀ k, a.toNat ≤ k → k < a.toNat + readableRows y a rows →
    m'.byte k = m.byte k) : s.paint m' x y a rows = s.paint m x y a rows := by
  have sprite : (List.range' a.toNat (readableRows y a rows)).map m'.byte =
      (List.range' a.toNat (readableRows y a rows)).map m.byte := by
    apply List.map_congr_left
    intro k hk
    obtain ⟨low, high⟩ := List.mem_range'_1.mp hk
    exact h k low high
  apply Prod.ext
  · rw [fst_paint, fst_paint, sprite]
  · rw [snd_paint, snd_paint, sprite]

theorem getD_sprite {x y rows px py : Nat} (h : Covers x y rows px py) :
    spriteBit (((List.range' a.toNat rows).map m.byte).getD (py - y) 0) (px - x) =
      spriteBitAt m x y a px py := by
  have row : py - y < rows := by
    unfold Covers at h
    omega
  simp [spriteBitAt, spriteBit, List.getD_eq_getElem?_getD, row]

theorem pixel_paint : (s.paint m x y a rows).1.pixel px py =
    if Covers x.toNat y.toNat (readableRows y a rows) px py then
      spriteBitAt m x.toNat y.toNat a px py
    else s.pixel px py := by
  rw [fst_paint, pixel_drawRows, List.length_map, List.length_range']
  split
  · rename_i h
    exact getD_sprite m a h
  · rfl

theorem snd_paint_eq_ok (h : visibleRows y rows ≤ 4096 - a.toNat) :
    ∃ collision, (s.paint m x y a rows).2 = .ok collision ∧ (collision = true ↔
      ∃ px py, Covers x.toNat y.toNat (readableRows y a rows) px py ∧
        s.pixel px py = true ∧ spriteBitAt m x.toNat y.toNat a px py = true) := by
  refine ⟨_, (s.snd_paint m a x y rows).trans (if_pos h), ?_⟩
  rw [drawRows_collides_iff, List.length_map, List.length_range']
  constructor
  · rintro ⟨px, py, hc, hs, hb⟩
    exact ⟨px, py, hc, hs, getD_sprite m a hc ▸ hb⟩
  · rintro ⟨px, py, hc, hs, hb⟩
    exact ⟨px, py, hc, hs, getD_sprite m a hc ▸ hb⟩

theorem snd_paint_eq_error (h : 4096 - a.toNat < visibleRows y rows) :
    (s.paint m x y a rows).2 = .error (.outOfBounds (.ofNat (max a.toNat 4096))) :=
  (s.snd_paint m a x y rows).trans (if_neg (Nat.not_le.mpr h))

end Paint

end Screen

end Chip8
