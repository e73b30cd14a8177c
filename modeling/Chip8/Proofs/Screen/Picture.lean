import Chip8.Proofs.Screen.History
import Mathlib.Data.Set.Card

/-! # The picture of a screen

A screen is shown as one colour for each cell of the grid, row by row. A cell has the
foreground colour if its pixel is set and the background colour otherwise, so that the
screen can be read back from its picture: screens with the same picture stay alike
through whatever is drawn on them.
-/

namespace Chip8

namespace Screen

/-- The colours of the cells, in the order in which a screen has its pixels. -/
abbrev Picture := Vector UInt32 2048

/-- The cells of the grid row by row from the top, each row from the left. -/
def cells : List (Nat × Nat) :=
  (List.range 32).flatMap fun y => (List.range 64).map fun x => (x, y)

def colour (value : Bool) : UInt32 := if value then foreground else background

def ofPicture (p : Picture) : Screen := ⟨p.map fun c => c == foreground⟩

def answer? (s : Screen) : Drawing → Option (Except Fault Bool)
  | .clear => none
  | .paint p => some (s.paintSprite p).2

def answers (s : Screen) : List Drawing → List (Option (Except Fault Bool))
  | [] => []
  | d :: ds => s.answer? d :: (s.draw d).answers ds

theorem colour_eq_foreground_iff (value : Bool) : colour value = foreground ↔ value = true := by
  cases value <;> decide

/-- Colours tell set pixels from others, so that a screen is read back from its picture. -/
theorem ofPicture_render (s : Screen) : ofPicture s.render = s := by
  cases s with
  | mk pixels =>
    have kept :
        (· == foreground) ∘ (fun value => if value then foreground else background) = id := by
      funext value
      cases value <;> decide
    rw [ofPicture, render, Vector.map_map, kept, Vector.map_id]

theorem render_injective : Function.Injective render :=
  Function.LeftInverse.injective ofPicture_render

theorem mem_cells_iff (x y : Nat) : (x, y) ∈ cells ↔ x < 64 ∧ y < 32 := by
  simp [cells, and_comm]

theorem range_mul (rows columns : Nat) : List.range (rows * columns) =
    (List.range rows).flatMap fun y => (List.range columns).map fun x => columns * y + x := by
  induction rows with
  | zero => simp
  | succ rows ih =>
    rw [Nat.succ_mul, List.range_add, ih, List.range_succ, List.flatMap_append]
    simp [Nat.mul_comm]

theorem range_eq_map_cells : List.range 2048 = cells.map fun c => 64 * c.2 + c.1 := by
  rw [cells, List.map_flatMap]
  simp only [List.map_map]
  exact range_mul 32 64

theorem nodup_cells : cells.Nodup := by
  apply List.Nodup.of_map fun c => 64 * c.2 + c.1
  rw [← range_eq_map_cells]
  exact List.nodup_range

variable (s : Screen)

theorem getElem?_render {x y : Nat} (hx : x < 64) (hy : y < 32) :
    s.render[64 * y + x]? = some (colour (s.pixel x y)) := by
  have within : 64 * y + x < 2048 := by omega
  simp [render, colour, pixel, hx, hy, within]

theorem toList_render : s.render.toList = cells.map fun c => colour (s.pixel c.1 c.2) := by
  have numbered : s.render.toList =
      (List.range 2048).map fun i => s.render[i]?.getD background := by
    apply List.ext_getElem
    · simp
    · intro i hi _
      have within : i < 2048 := by simpa using hi
      simp [within]
  rw [numbered, range_eq_map_cells, List.map_map]
  apply List.map_congr_left
  rintro ⟨x, y⟩ cell
  obtain ⟨hx, hy⟩ := (mem_cells_iff x y).mp cell
  simp only [Function.comp_apply, s.getElem?_render hx hy, Option.getD_some]

theorem pixel_eq_true_iff (x y : Nat) : s.pixel x y = true ↔
    x < 64 ∧ y < 32 ∧ s.render[64 * y + x]? = some foreground := by
  constructor
  · intro h
    obtain ⟨hx, hy⟩ := inside_of_pixel h
    refine ⟨hx, hy, ?_⟩
    rw [s.getElem?_render hx hy, h]
    rfl
  · rintro ⟨hx, hy, h⟩
    rw [s.getElem?_render hx hy, Option.some.injEq] at h
    exact (colour_eq_foreground_iff _).mp h

theorem eq_background_of_mem_render {c : UInt32} (h : c ∈ s.render.toList)
    (other : c ≠ foreground) : c = background := by
  rw [toList_render, List.mem_map] at h
  obtain ⟨⟨x, y⟩, -, rfl⟩ := h
  cases hp : s.pixel x y with
  | false => rfl
  | true => exact absurd ((colour_eq_foreground_iff _).mpr hp) other

theorem count_render :
    s.render.toList.count foreground = {c : Nat × Nat | s.pixel c.1 c.2 = true}.ncard := by
  have shown : {c : Nat × Nat | s.pixel c.1 c.2 = true} =
      ((cells.filter fun c => s.pixel c.1 c.2).toFinset : Set (Nat × Nat)) := by
    ext ⟨x, y⟩
    simp only [Set.mem_ofPred_eq, List.coe_toFinset, List.mem_filter, mem_cells_iff]
    exact ⟨fun h => ⟨inside_of_pixel h, h⟩, And.right⟩
  rw [shown, Set.ncard_coe_finset, List.toFinset_card_of_nodup (nodup_cells.filter _),
    toList_render, ← List.countP_eq_length_filter, List.count, List.countP_map]
  congr 1
  funext c
  rw [Bool.eq_iff_iff, Function.comp_apply, beq_iff_eq, colour_eq_foreground_iff]

theorem lit_eq_count_render : s.lit = s.render.toList.count foreground := by
  rw [lit, render, Vector.toList_map, ← Vector.count_toList, List.count, List.count,
    List.countP_map]
  congr 1
  funext value
  cases value <;> decide

/-- A picture has the foreground colour in the cells of the set pixels and the background colour
in all others, row by row. Screens have the same picture if they have the same pixels, and then
any calls make the same pictures of them and answer the same. -/
theorem render_exact :
    (s.render.toList = cells.map fun c => colour (s.pixel c.1 c.2)) ∧
    s.render.toList.length = 2048 ∧
    (∀ x y, s.pixel x y = true ↔ x < 64 ∧ y < 32 ∧ s.render[64 * y + x]? = some foreground) ∧
    (∀ c ∈ s.render.toList, c ≠ foreground → c = background) ∧
    s.render.toList.count foreground = s.lit ∧
    s.lit = {c : Nat × Nat | s.pixel c.1 c.2 = true}.ncard ∧
    ∀ t : Screen, (s.render = t.render ↔ ∀ x y, s.pixel x y = t.pixel x y) ∧
      (s.render = t.render → ∀ ds,
        (s.drawAll ds).render = (t.drawAll ds).render ∧ s.answers ds = t.answers ds) := by
  refine ⟨s.toList_render, by simp, s.pixel_eq_true_iff, fun _ => s.eq_background_of_mem_render,
    s.lit_eq_count_render.symm, s.lit_eq_count_render.trans s.count_render, ?_⟩
  intro t
  constructor
  · constructor
    · intro h x y
      rw [render_injective h]
    · intro h
      rw [ext_pixel fun x _ y _ => h x y]
  · intro h ds
    rw [render_injective h]
    exact ⟨rfl, rfl⟩

theorem render_exact_dot :
    let once := (blank.paintSprite dot).1
    let twice := (once.paintSprite dot).1
    once.pixel 3 2 = true ∧ once.render[64 * 2 + 3]? = some foreground ∧
      twice.render = once.render ∧
      ∀ ds, (twice.drawAll ds).render = (once.drawAll ds).render ∧
        twice.answers ds = once.answers ds := by
  intro once twice
  have lit : once.pixel 3 2 = true := by
    rw [pixel_paintSprite, if_pos (by decide), bit_dot]
  have same : twice.render = once.render := congrArg render paintSprite_paintSprite
  obtain ⟨-, -, pixels, -⟩ := render_exact once
  obtain ⟨-, -, -, -, -, -, later⟩ := render_exact twice
  exact ⟨lit, ((pixels 3 2).mp lit).2.2, same, (later once).2 same⟩

end Screen

end Chip8
