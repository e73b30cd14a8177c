import Chip8.Memory

/-! # The screen

A grid of 64 by 32 pixels that are set or not. A sprite's bits replace the
pixels under them; nothing wraps around an edge, and a collision is a set pixel
that a set bit falls on.
-/

namespace Chip8

/-- The pixels row by row from the top, each row from the left. -/
structure Screen where
  pixels : Vector Bool 2048
  deriving DecidableEq

namespace Screen

def blank : Screen := ⟨Vector.replicate 2048 false⟩

/-- No pixel outside the grid is set. -/
def pixel (s : Screen) (x y : Nat) : Bool :=
  if h : x < 64 ∧ y < 32 then s.pixels[64 * y + x] else false

/-- A pixel outside the grid is dropped. -/
def setPixel (s : Screen) (x y : Nat) (value : Bool) : Screen :=
  if h : x < 64 ∧ y < 32 then ⟨s.pixels.set (64 * y + x) value⟩ else s

/-- A byte's bits from the left, the highest one being number zero. -/
def spriteBit (b : UInt8) (column : Nat) : Bool := b.toNat.testBit (7 - column)

def drawRow (s : Screen) (x y : Nat) (b : UInt8) : Screen :=
  (List.range 8).foldl (fun s j => s.setPixel (x + j) y (spriteBit b j)) s

def rowCollides (s : Screen) (x y : Nat) (b : UInt8) : Bool :=
  (List.range 8).any fun j => s.pixel (x + j) y && spriteBit b j

def drawRows (s : Screen) (x y : Nat) : List UInt8 → Screen × Bool
  | [] => (s, false)
  | b :: bs =>
    let (drawn, collision) := (s.drawRow x y b).drawRows x (y + 1) bs
    (drawn, s.rowCollides x y b || collision)

/-- How many rows of a sprite lie above the bottom edge; of their count the last digit is used. -/
def visibleRows (y rows : UInt8) : Nat := min (rows.toNat % 16) (32 - y.toNat)

/-- Draws a sprite from memory and tells whether it collides. Rows before an unreadable byte
stay drawn. -/
def paint (s : Screen) (m : Memory) (x y : UInt8) (a : Address) (rows : UInt8) :
    Screen × Except Fault Bool :=
  let (sprite, fault?) := m.readUpTo a 0 (visibleRows y rows)
  let (drawn, collision) := s.drawRows x.toNat y.toNat sprite
  (drawn, match fault? with
    | some f => .error f
    | none => .ok collision)

def lit (s : Screen) : Nat := s.pixels.count true

def background : UInt32 := 0x000000

def foreground : UInt32 := 0x007FFF

def render (s : Screen) : Vector UInt32 2048 :=
  s.pixels.map fun value => if value then foreground else background

theorem pixel_blank (x y : Nat) : blank.pixel x y = false := by simp [pixel, blank]

theorem pixel_setPixel (s : Screen) (x y : Nat) (value : Bool) (px py : Nat) :
    (s.setPixel x y value).pixel px py =
      if px = x ∧ py = y ∧ x < 64 ∧ y < 32 then value else s.pixel px py := by
  by_cases h : x < 64 ∧ y < 32
  · by_cases hp : px < 64 ∧ py < 32
    · have same : 64 * y + x = 64 * py + px ↔ px = x ∧ py = y := by omega
      simp [setPixel, pixel, h, hp, Vector.getElem_set, same]
    · rw [if_neg (by omega)]
      simp [pixel, hp]
  · simp [setPixel, h]

theorem pixel_drawRow (s : Screen) (x y : Nat) (b : UInt8) (px py : Nat) :
    (s.drawRow x y b).pixel px py =
      if py = y ∧ x ≤ px ∧ px < x + 8 ∧ px < 64 ∧ py < 32 then spriteBit b (px - x)
      else s.pixel px py := by
  have columns : ∀ n, ((List.range n).foldl
      (fun s j => s.setPixel (x + j) y (spriteBit b j)) s).pixel px py =
      if py = y ∧ x ≤ px ∧ px < x + n ∧ px < 64 ∧ py < 32 then spriteBit b (px - x)
      else s.pixel px py := by
    intro n
    induction n with
    | zero =>
      rw [if_neg (by omega)]
      rfl
    | succ n ih =>
      rw [List.range_succ, List.foldl_append, List.foldl_cons, List.foldl_nil, pixel_setPixel, ih]
      grind
  exact columns 8

end Screen

end Chip8
