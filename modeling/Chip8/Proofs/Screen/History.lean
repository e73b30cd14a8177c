import Chip8.Proofs.Screen.Sprite

/-! # The history of a screen

A screen on which sprites are drawn and which is cleared from time to time shows in
each cell the bit of the last call that covered the cell. A sprite collides with
what the earlier calls left, and sprites that share no cell do not notice each other.
-/

namespace Chip8

/-- A sprite as it is drawn: the memory and the address of its bytes, its corner and its rows. -/
structure Sprite where
  memory : Memory
  x : UInt8
  y : UInt8
  address : Address
  rows : UInt8

inductive Drawing where
  | clear
  | paint (p : Sprite)

namespace Sprite

def visible (p : Sprite) : Nat := min (p.rows.toNat % 16) (32 - p.y.toNat)

def readable (p : Sprite) : Nat := min p.visible (4096 - p.address.toNat)

/-- A sprite covers its columns and its readable rows as far as they lie on the grid. -/
def Covers (p : Sprite) (px py : Nat) : Prop :=
  Screen.Covers p.x.toNat p.y.toNat p.readable px py

instance (p : Sprite) (px py : Nat) : Decidable (p.Covers px py) :=
  inferInstanceAs (Decidable (Screen.Covers ..))

/-- The bit that a sprite has for a cell, the highest one of a byte being the leftmost. -/
def bit (p : Sprite) (px py : Nat) : Bool :=
  (p.memory.byte (p.address.toNat + (py - p.y.toNat))).toNat.testBit (7 - (px - p.x.toNat))

end Sprite

def Drawing.bit? (px py : Nat) : Drawing → Option Bool
  | .clear => if px < 64 ∧ py < 32 then some false else none
  | .paint p => if p.Covers px py then some (p.bit px py) else none

namespace Screen

variable (s : Screen) (p q : Sprite) (px py : Nat)

def paintSprite : Screen × Except Fault Bool := s.paint p.memory p.x p.y p.address p.rows

def draw (s : Screen) : Drawing → Screen
  | .clear => .blank
  | .paint p => (s.paintSprite p).1

def drawAll (s : Screen) (ds : List Drawing) : Screen := ds.foldl draw s

/-- The bit that the last call to cover a cell gave it, or its first one if there is none. -/
def lastBit (s : Screen) (ds : List Drawing) (px py : Nat) : Bool :=
  (ds.filterMap (Drawing.bit? px py)).getLastD (s.pixel px py)

theorem pixel_paintSprite : (s.paintSprite p).1.pixel px py =
    if p.Covers px py then p.bit px py else s.pixel px py :=
  s.pixel_paint px py p.memory p.address p.x p.y p.rows

theorem pixel_draw (d : Drawing) :
    (s.draw d).pixel px py = (d.bit? px py).getD (s.pixel px py) := by
  cases d with
  | clear =>
    rw [draw, pixel_blank, Drawing.bit?]
    split
    · rfl
    · rename_i outside
      simp [pixel, outside]
  | paint p =>
    rw [draw, pixel_paintSprite, Drawing.bit?]
    split <;> rfl

theorem pixel_drawAll (ds : List Drawing) :
    (s.drawAll ds).pixel px py = s.lastBit ds px py := by
  induction ds generalizing s with
  | nil => rfl
  | cons d ds ih =>
    change ((s.draw d).drawAll ds).pixel px py = _
    rw [ih, lastBit, lastBit, pixel_draw, List.filterMap_cons]
    cases d.bit? px py with
    | none => rfl
    | some b => exact (List.getLastD_cons ..).symm

variable {s p q}

/-- A sprite is answered if none of its visible rows is missing, and its answer tells whether it
collided; otherwise the first missing address is reported. -/
theorem snd_paintSprite_cases (s : Screen) (p : Sprite) :
    (p.readable = p.visible ∧ ∃ collision, (s.paintSprite p).2 = .ok collision ∧
      (collision = true ↔
        ∃ px py, p.Covers px py ∧ p.bit px py = true ∧ s.pixel px py = true)) ∨
    (p.readable < p.visible ∧
      (s.paintSprite p).2 = .error (.outOfBounds (.ofNat (max p.address.toNat 4096)))) := by
  rcases Nat.lt_or_ge (4096 - p.address.toNat) p.visible with cut | whole
  · have short : p.readable < p.visible := Nat.lt_of_le_of_lt (Nat.min_le_right ..) cut
    exact Or.inr ⟨short, s.snd_paint_eq_error p.memory p.address p.x p.y p.rows cut⟩
  · obtain ⟨c, hc, hi⟩ := s.snd_paint_eq_ok p.memory p.address p.x p.y p.rows whole
    refine Or.inl ⟨Nat.min_eq_left whole, c, hc, hi.trans ?_⟩
    exact exists₂_congr fun px py => and_congr_right fun _ => and_comm

theorem isOk_iff (s : Screen) (p : Sprite) :
    (∃ collision, (s.paintSprite p).2 = .ok collision) ↔ p.readable = p.visible := by
  rcases s.snd_paintSprite_cases p with ⟨whole, c, hc, -⟩ | ⟨short, hf⟩
  · exact ⟨fun _ => whole, fun _ => ⟨c, hc⟩⟩
  · refine ⟨?_, fun whole => absurd whole (Nat.ne_of_lt short)⟩
    rintro ⟨c, hc⟩
    cases hf.symm.trans hc

theorem collides_iff {collision : Bool} (h : (s.paintSprite p).2 = .ok collision) :
    collision = true ↔ ∃ px py, p.Covers px py ∧ p.bit px py = true ∧ s.pixel px py = true := by
  rcases s.snd_paintSprite_cases p with ⟨-, c, hc, hi⟩ | ⟨-, hf⟩
  · obtain rfl := Except.ok.inj (hc.symm.trans h)
    exact hi
  · cases hf.symm.trans h

theorem snd_paintSprite_congr {s' : Screen}
    (h : ∀ px py, p.Covers px py → s.pixel px py = s'.pixel px py) :
    (s.paintSprite p).2 = (s'.paintSprite p).2 := by
  rcases s.snd_paintSprite_cases p with ⟨whole, c, hc, hi⟩ | ⟨short, hf⟩
  · obtain ⟨c', hc'⟩ := (s'.isOk_iff p).mpr whole
    have same : c = c' := by
      rw [Bool.eq_iff_iff, hi, collides_iff hc']
      constructor
      · rintro ⟨px, py, cover, hb, hs⟩
        exact ⟨px, py, cover, hb, h px py cover ▸ hs⟩
      · rintro ⟨px, py, cover, hb, hs⟩
        exact ⟨px, py, cover, hb, (h px py cover).symm ▸ hs⟩
    rw [hc, hc', same]
  · rcases s'.snd_paintSprite_cases p with ⟨whole, -⟩ | ⟨-, hf'⟩
    · exact absurd whole (Nat.ne_of_lt short)
    · rw [hf, hf']

theorem paintSprite_paintSprite :
    ((s.paintSprite p).1.paintSprite p).1 = (s.paintSprite p).1 := by
  apply ext_pixel
  intro px _ py _
  rw [pixel_paintSprite, pixel_paintSprite]
  split <;> rfl

section Apart

variable (apart : ∀ px py, p.Covers px py → ¬ q.Covers px py)
include apart

theorem paintSprite_comm :
    ((s.paintSprite p).1.paintSprite q).1 = ((s.paintSprite q).1.paintSprite p).1 := by
  apply ext_pixel
  intro px _ py _
  simp only [pixel_paintSprite]
  by_cases hp : p.Covers px py
  · simp [hp, apart px py hp]
  · simp [hp]

theorem snd_paintSprite_of_apart : ((s.paintSprite p).1.paintSprite q).2 = (s.paintSprite q).2 := by
  apply snd_paintSprite_congr
  intro px py hq
  rw [pixel_paintSprite, if_neg fun hp => apart px py hp hq]

end Apart

theorem drawAll_append (ds es : List Drawing) :
    s.drawAll (ds ++ es) = (s.drawAll ds).drawAll es := List.foldl_append

theorem drawAll_paint (ds : List Drawing) :
    s.drawAll (.paint p :: ds) = (s.paintSprite p).1.drawAll ds := rfl

/-- In a history of calls the last one to cover a cell decides what it shows. A sprite is answered
if no visible row of it is missing. It collides where its bit is set and the last earlier call to
cover the cell set it too. To draw a sprite twice at once is to draw it once, and neighbours in a
history that share no cell may change places. -/
theorem drawn_by_last (s : Screen) (ds : List Drawing) :
    (∀ px py, (s.drawAll ds).pixel px py = s.lastBit ds px py) ∧
    (∀ before p after, ds = before ++ .paint p :: after →
      ((∃ collision, ((s.drawAll before).paintSprite p).2 = .ok collision) ↔
        p.readable = p.visible) ∧
      (∀ collision, ((s.drawAll before).paintSprite p).2 = .ok collision →
        (collision = true ↔
          ∃ px py, p.Covers px py ∧ p.bit px py = true ∧ s.lastBit before px py = true)) ∧
      s.drawAll (before ++ .paint p :: .paint p :: after) = s.drawAll ds) ∧
    ∀ before p q after, ds = before ++ .paint p :: .paint q :: after →
      (∀ px py, p.Covers px py → ¬ q.Covers px py) →
      s.drawAll (before ++ .paint q :: .paint p :: after) = s.drawAll ds ∧
      ((s.drawAll (before ++ [.paint q])).paintSprite p).2 = ((s.drawAll before).paintSprite p).2 ∧
      ((s.drawAll (before ++ [.paint p])).paintSprite q).2 =
        ((s.drawAll before).paintSprite q).2 := by
  refine ⟨fun px py => s.pixel_drawAll px py ds, ?_, ?_⟩
  · rintro before p after rfl
    refine ⟨isOk_iff _ p, ?_, ?_⟩
    · intro collision h
      simp only [collides_iff h, pixel_drawAll]
    · simp only [drawAll_append, drawAll_paint, paintSprite_paintSprite]
  · rintro before p q after rfl apart
    have apart' : ∀ px py, q.Covers px py → ¬ p.Covers px py :=
      fun px py hq hp => apart px py hp hq
    refine ⟨?_, ?_, ?_⟩
    · simp only [drawAll_append, drawAll_paint, paintSprite_comm apart]
    · rw [drawAll_append]
      exact snd_paintSprite_of_apart apart'
    · rw [drawAll_append]
      exact snd_paintSprite_of_apart apart

def dot : Sprite := ⟨.place .zero #[0x80], 3, 2, 0x200, 1⟩

theorem bit_dot : dot.bit 3 2 = true := by
  have byte : (Memory.place .zero #[0x80]).byte 0x200 = 0x80 := by
    rw [Memory.byte_eq_getElem _ (by decide), Memory.getElem_place _ _ (by decide)]
    rfl
  exact (congrArg (fun b : UInt8 => b.toNat.testBit 7) byte).trans (by decide)

theorem drawn_by_last_dot : (blank.drawAll [.paint dot, .paint dot]).pixel 3 2 = true ∧
    ((blank.drawAll [.paint dot]).paintSprite dot).2 = .ok true := by
  obtain ⟨pixels, sprites, -⟩ := drawn_by_last blank [.paint dot, .paint dot]
  obtain ⟨answered, collided, -⟩ := sprites [.paint dot] dot [] rfl
  have covered : dot.Covers 3 2 := by decide
  have left : blank.lastBit [.paint dot] 3 2 = true := by
    simp [lastBit, Drawing.bit?, covered, bit_dot]
  obtain ⟨c, hc⟩ := answered.mpr (by decide)
  constructor
  · rw [pixels]
    simp [lastBit, Drawing.bit?, covered, bit_dot]
  · rw [hc, (collided c hc).mpr ⟨3, 2, covered, bit_dot, left⟩]

end Screen

end Chip8
