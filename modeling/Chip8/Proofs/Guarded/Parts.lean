import Chip8.Loading
import Chip8.Proofs.Guarded.Word
import Chip8.Registers
import Chip8.Screen

/-! # Guarded memory, registers and screen

Every access to an element is guarded by the length, and every sum on the way to it by its
bits. A sprite is drawn pixel by pixel in two loops. The guards never trap, and what is left
are the memory, the registers and the screen without them.
-/

namespace Chip8.Guarded

/-- A result that may be a fault, unless a trap comes before it. -/
abbrev Attempt := ExceptT Fault Guarded

section Attempt

variable {α β : Type}

def safely (r : Except Fault α) : Attempt α := ExceptT.mk (.ok r)

theorem pure_eq_safely (a : α) : (pure a : Attempt α) = safely (.ok a) := rfl

theorem safely_bind (r : Except Fault α) (f : α → Except Fault β) :
    (safely r >>= fun a => safely (f a)) = safely (r >>= f) := by
  cases r <;> rfl

end Attempt

section Elements

variable {α : Type} {n : Nat}

def get (v : Vector α n) (i : Nat) : Guarded α := if h : i < n then .ok v[i] else .error .index

def set (v : Vector α n) (i : Nat) (a : α) : Guarded (Vector α n) :=
  if h : i < n then .ok (v.set i a) else .error .index

def front (source : Array α) (count : Nat) : Guarded (Array α) :=
  if count ≤ source.size then .ok (source.extract 0 count) else .error .index

/-- Copies an array over the elements from `start` up to `stop`, which have to be as many. -/
def copy (v : Vector α n) (start stop : Nat) (source : Array α) : Guarded (Vector α n) :=
  if ¬ (start ≤ stop ∧ stop ≤ n) then .error .index
  else if stop - start ≠ source.size then .error .copy
  else .ok (.ofFn fun i => if start ≤ i.val then source.getD (i.val - start) v[i] else v[i])

theorem get_eq_ok (v : Vector α n) {i : Nat} (h : i < n) : get v i = .ok v[i] := dif_pos h

theorem set_eq_ok (v : Vector α n) {i : Nat} (a : α) (h : i < n) :
    set v i a = .ok (v.set i a) := dif_pos h

theorem front_eq_ok {source : Array α} {count : Nat} (h : count ≤ source.size) :
    front source count = .ok (source.extract 0 count) := if_pos h

theorem copy_eq_ok (v : Vector α n) {start stop : Nat} {source : Array α} (hs : start ≤ stop)
    (hn : stop ≤ n) (h : stop - start = source.size) :
    copy v start stop source =
      .ok (.ofFn fun i => if start ≤ i.val then source.getD (i.val - start) v[i] else v[i]) := by
  simp [copy, hs, hn, h]

end Elements

section Memory

variable (m : Memory) (a : Address)

def check (a : Address) : Except Fault Nat :=
  if a.toNat < 4096 then .ok a.toNat else .error (.outOfBounds a)

def readByte : Attempt UInt8 := do
  let i ← safely (check a)
  ExceptT.lift (get m.bytes i)

def writeByte (value : UInt8) : Attempt Memory := do
  let i ← safely (check a)
  let bytes ← ExceptT.lift (set m.bytes i value)
  return ⟨bytes⟩

def readWord : Attempt Word := do
  let high ← readByte m a
  let low ← readByte m (← safely (a.offset 1))
  return .ofBytes high low

def writeWord (value : Word) : Attempt Memory := do
  let next ← safely (a.offset 1)
  let _ ← safely (check next)
  let m ← writeByte m a value.high
  writeByte m next value.low

def load (image : Array UInt8) : Guarded Loading := do
  if image.isEmpty then return ⟨m, .error .emptyProgram, []⟩
  let placed := min image.size (← sub 4096 0x200)
  let records : List Record :=
    if placed < image.size then [.truncated image.size placed, .placed placed] else [.placed placed]
  let bytes ← copy m.bytes 0x200 (← add 64 0x200 placed) (← front image placed)
  return ⟨⟨bytes⟩, .ok placed, records⟩

def loadFile (path : String) (reading : Reading) : Guarded Loading := do
  match reading with
  | .ok image =>
    let l ← load m image
    return { l with records := .opening path :: l.records }
  | .error cause => return ⟨m, .error (.unreadable path cause), [.opening path]⟩

theorem readByte_eq : readByte m a = safely (m.read a) := by
  by_cases h : a.toNat < 4096
  · rw [readByte, check, if_pos h, m.read_eq_ok h]
    exact congrArg ExceptT.lift (get_eq_ok m.bytes h)
  · rw [readByte, check, if_neg h, m.read_eq_error (Nat.le_of_not_lt h)]
    rfl

theorem writeByte_eq (value : UInt8) : writeByte m a value = safely (m.write a value) := by
  by_cases h : a.toNat < 4096
  · simp only [writeByte, check, if_pos h, Memory.write, Address.cell_eq_ok h]
    exact congrArg (ExceptT.lift · >>= _) (set_eq_ok m.bytes value h)
  · simp only [writeByte, check, if_neg h, Memory.write,
      Address.cell_eq_error (Nat.le_of_not_lt h)]
    rfl

theorem readWord_eq : readWord m a = safely (m.readWord a) := by
  simp only [readWord, readByte_eq, pure_eq_safely, safely_bind]
  rfl

theorem writeWord_eq (value : Word) : writeWord m a value = safely (m.writeWord a value) := by
  simp only [writeWord, writeByte_eq, safely_bind]
  congr 1
  cases next : a.offset 1 with
  | error f => simp [Memory.writeWord, next, bind, Except.bind]
  | ok c =>
    by_cases h : c.toNat < 4096
    · simp [Memory.writeWord, Memory.write, check, next, h, Address.cell_eq_ok h, bind, Except.bind,
        pure, Except.pure]
    · simp [Memory.writeWord, check, next, h, Address.cell_eq_error (Nat.le_of_not_lt h), bind,
        Except.bind]

theorem place_extract (image : Array UInt8) :
    m.place (image.extract 0 (Memory.fitting image)) = m.place image := by
  have cut (i : Nat) (h : i < 4096) (b : UInt8) :
      (image.extract 0 (Memory.fitting image)).getD (i - 0x200) b = image.getD (i - 0x200) b := by
    simp only [Array.getD_eq_getD_getElem?, Array.getElem?_extract, Memory.fitting]
    split
    · simp
    · rw [Array.getElem?_eq_none (by omega)]
  have same : (m.place (image.extract 0 (Memory.fitting image))).bytes = (m.place image).bytes := by
    ext i h
    rw [m.getElem_place _ h, m.getElem_place _ h, cut i h]
  exact congrArg Memory.mk same

theorem load_eq (image : Array UInt8) : load m image = .ok (m.load image) := by
  by_cases empty : image.isEmpty
  · simp [load, Memory.load, empty]
  · have room : Memory.fitting image ≤ 3584 := Nat.min_le_right _ _
    have most : Memory.fitting image ≤ image.size := Nat.min_le_left _ _
    have top : copy m.bytes 0x200 (0x200 + Memory.fitting image)
        (image.extract 0 (Memory.fitting image)) = .ok (m.place image).bytes := by
      rw [copy_eq_ok _ (by omega) (by omega) (by simp; omega), ← place_extract]
      rfl
    have sum : add 64 0x200 (Memory.fitting image) = .ok (0x200 + Memory.fitting image) :=
      add_eq_ok (by omega)
    have left : front image (Memory.fitting image) = .ok _ := front_eq_ok most
    have count : min image.size 3584 = Memory.fitting image := rfl
    have cut : Memory.fitting image < image.size ↔ 3584 < image.size := by simp [Memory.fitting]
    simp [load, Memory.load, empty, sub_eq_ok, count, cut, sum, left, top]

theorem loadFile_eq (path : String) (reading : Reading) :
    loadFile m path reading = .ok (m.loadFile path reading) := by
  cases reading with
  | error cause => rfl
  | ok image => exact congrArg (· >>= _) (load_eq m image)

end Memory

section Registers

variable (r : Registers) (x value : UInt8)

def register : Guarded UInt8 := get r.values (x &&& 0xF).toNat

def setRegister : Guarded Registers := do
  return ⟨← set r.values (x &&& 0xF).toNat value⟩

def addRegister : Guarded Registers := do
  let old ← get r.values (x &&& 0xF).toNat
  return ⟨← set r.values (x &&& 0xF).toNat (old + value)⟩

theorem toNat_and_fifteen : (x &&& 0xF).toNat = x.toNat % 16 := by
  rw [UInt8.toNat_and]
  exact Nat.and_two_pow_sub_one_eq_mod x.toNat 4

theorem register_eq : register r x = .ok (r.get x) := by
  rw [register, toNat_and_fifteen]
  exact get_eq_ok r.values (Registers.slot x).isLt

theorem setRegister_eq : setRegister r x value = .ok (r.set x value) := by
  have slot : x.toNat % 16 < 16 := (Registers.slot x).isLt
  simp only [setRegister, toNat_and_fifteen, set_eq_ok _ _ slot]
  rfl

theorem addRegister_eq : addRegister r x value = .ok (r.add x value) := by
  have slot : x.toNat % 16 < 16 := (Registers.slot x).isLt
  simp only [addRegister, toNat_and_fifteen, get_eq_ok _ slot, ok_bind, set_eq_ok _ _ slot]
  rfl

end Registers

section Screen

variable (s : Screen) (m : Memory)

def readPixel (x y : Nat) : Guarded Bool :=
  if y < 32 ∧ x < 64 then .ok (s.pixel x y) else .error .index

def writePixel (x y : Nat) (value : Bool) : Guarded Screen :=
  if y < 32 ∧ x < 64 then .ok (s.setPixel x y value) else .error .index

def pixel (x y : Address) : Guarded Bool :=
  if y.toNat < 32 ∧ x.toNat < 64 then readPixel s x.toNat y.toNat else .ok false

/-- Draws the columns of a row from the left until one is past the right edge, with the
collision that was found before. -/
def paintColumns (x y : Nat) (row : UInt8) (s : Screen) (collision : Bool) :
    List Nat → Guarded (Screen × Bool)
  | [] => .ok (s, collision)
  | j :: js => do
    let right ← add 64 x j
    if 64 ≤ right then return (s, collision)
    let bit := (← shiftRight 8 row.toNat (← sub 7 j)) % 2 == 1
    let previous ← readPixel s right y
    let drawn ← writePixel s right y bit
    paintColumns x y row drawn (collision || previous && bit) js

def readRow (a : Address) (i : Nat) : Attempt UInt8 := do readByte m (← safely (a.offset i))

/-- Draws rows from the top until one is past the bottom edge or cannot be read. -/
def paintRows (x y : Nat) (a : Address) (s : Screen) (collision : Bool) :
    List Nat → Guarded (Screen × Except Fault Bool)
  | [] => .ok (s, .ok collision)
  | i :: is => do
    let down ← add 64 y i
    if 32 ≤ down then return (s, .ok collision)
    match ← (readRow m a i).run with
    | .error f => return (s, .error f)
    | .ok row =>
      let (drawn, collision) ← paintColumns x down row s collision (List.range 8)
      paintRows x y a drawn collision is

def paint (x y : UInt8) (a : Address) (rows : UInt8) : Guarded (Screen × Except Fault Bool) :=
  paintRows m x.toNat y.toNat a s false (List.range (rows &&& 0xF).toNat)

theorem pixel_eq (x y : Address) : pixel s x y = .ok (s.pixel x.toNat y.toNat) := by
  by_cases h : y.toNat < 32 ∧ x.toNat < 64
  · simp [pixel, readPixel, h]
  · simp only [pixel, if_neg h, Screen.pixel]
    rw [dif_neg (by omega)]

theorem columns_outside {x : Nat} (y : Nat) (row : UInt8) {js : List Nat}
    (h : ∀ j ∈ js, 64 ≤ x + j) :
    js.foldl (fun s j => s.setPixel (x + j) y (Screen.spriteBit row j)) s = s ∧
      (js.any fun j => s.pixel (x + j) y && Screen.spriteBit row j) = false := by
  induction js with
  | nil => simp
  | cons j js ih =>
    have past : ¬ x + j < 64 := Nat.not_lt.mpr (h j (by simp))
    simpa [Screen.setPixel, Screen.pixel, past] using ih fun i hi => h i (by simp [hi])

theorem any_setPixel (x y : Nat) (row : UInt8) (value : Bool) {j : Nat} {js : List Nat}
    (after : ∀ i ∈ js, j < i) :
    (js.any fun i => (s.setPixel (x + j) y value).pixel (x + i) y && Screen.spriteBit row i) =
      js.any fun i => s.pixel (x + i) y && Screen.spriteBit row i := by
  have kept : ∀ i ∈ js, (s.setPixel (x + j) y value).pixel (x + i) y = s.pixel (x + i) y := by
    intro i hi
    have := after i hi
    rw [Screen.pixel_setPixel, if_neg (by omega)]
  rw [Bool.eq_iff_iff, List.any_eq_true, List.any_eq_true]
  exact exists_congr fun i => and_congr_right fun hi => by rw [kept i hi]

theorem shiftRight_eq_spriteBit (row : UInt8) (j : Nat) :
    (row.toNat >>> (7 - j) % 2 == 1) = Screen.spriteBit row j := by
  rw [Screen.spriteBit, Nat.testBit_eq_decide_div_mod_eq, Nat.shiftRight_eq_div_pow]
  rfl

theorem paintColumns_eq {x y : Nat} (row : UInt8) (collision : Bool) {js : List Nat}
    (hx : x < 256) (hy : y < 32) (hjs : ∀ j ∈ js, j < 8) (ordered : js.Pairwise (· < ·)) :
    paintColumns x y row s collision js =
      .ok (js.foldl (fun s j => s.setPixel (x + j) y (Screen.spriteBit row j)) s,
        collision || js.any fun j => s.pixel (x + j) y && Screen.spriteBit row j) := by
  -- the collision is that of the columns before, and those left still see the screen from before
  induction js generalizing s collision with
  | nil => simp [paintColumns]
  | cons j js ih =>
    have hj : j < 8 := hjs j (by simp)
    obtain ⟨after, ordered⟩ := List.pairwise_cons.mp ordered
    have sum : add 64 x j = .ok (x + j) := add_eq_ok (by omega)
    by_cases past : 64 ≤ x + j
    · have far : ∀ i ∈ j :: js, 64 ≤ x + i := by
        rintro i (_ | ⟨_, hi⟩)
        · exact past
        · have := after i hi
          omega
      have outside := columns_outside s y row far
      simp only [paintColumns, sum, ok_bind, if_pos past, outside.1, outside.2, Bool.or_false]
      rfl
    · have inside : y < 32 ∧ x + j < 64 := ⟨hy, by omega⟩
      simp [paintColumns, sum, past, sub_eq_ok (show j ≤ 7 by omega),
        shiftRight_eq_ok (show 7 - j < 8 by omega), shiftRight_eq_spriteBit, readPixel, writePixel,
        inside, ih _ _ (fun i hi => hjs i (by simp [hi])) ordered, any_setPixel s x y row _ after,
        Bool.or_assoc]

theorem paintColumns_range {x y : Nat} (row : UInt8) (collision : Bool) (hx : x < 256)
    (hy : y < 32) :
    paintColumns x y row s collision (List.range 8) =
      .ok (s.drawRow x y row, collision || s.rowCollides x y row) :=
  paintColumns_eq s row collision hx hy (fun _ => List.mem_range.mp) List.pairwise_lt_range

theorem readRow_eq (a : Address) (i : Nat) : readRow m a i = safely (a.offset i >>= m.read) := by
  simp only [readRow, readByte_eq, safely_bind]

theorem paintRows_eq {x y : Nat} (a : Address) (hx : x < 256) (hy : y < 256) {i count : Nat}
    (collision : Bool) (hi : i + count ≤ 15) :
    paintRows m x y a s collision (List.range' i count) =
      let sprite := m.readUpTo a i (min count (32 - (y + i)))
      let drawn := s.drawRows x (y + i) sprite.1
      .ok (drawn.1, match sprite.2 with
        | some f => .error f
        | none => .ok (collision || drawn.2)) := by
  induction count generalizing s collision i with
  | zero => simp [paintRows, Memory.readUpTo, Screen.drawRows]
  | succ count ih =>
    have sum : add 64 y i = .ok (y + i) := add_eq_ok (by omega)
    by_cases below : 32 ≤ y + i
    · simp [List.range'_succ, paintRows, sum, below, Memory.readUpTo, Screen.drawRows]
    · have more : min (count + 1) (32 - (y + i)) = min count (32 - (y + (i + 1))) + 1 := by omega
      have row : (readRow m a i).run = .ok (a.offset i >>= m.read) :=
        congrArg ExceptT.run (readRow_eq m a i)
      simp only [List.range'_succ, paintRows, sum, ok_bind, if_neg below, more, row,
        Memory.readUpTo]
      cases a.offset i >>= m.read with
      | error f => simp [Screen.drawRows]
      | ok b =>
        simp [paintColumns_range s b collision hx (show y + i < 32 by omega),
          ih (s.drawRow x (y + i) b) _ (show i + 1 + count ≤ 15 by omega), Screen.drawRows,
          Bool.or_assoc, Nat.add_assoc]

theorem paint_eq (x y : UInt8) (a : Address) (rows : UInt8) :
    paint s m x y a rows = .ok (s.paint m x y a rows) := by
  rw [paint, toNat_and_fifteen, List.range_eq_range']
  exact paintRows_eq s m a x.toNat_lt y.toNat_lt false (by omega)

end Screen

end Chip8.Guarded
