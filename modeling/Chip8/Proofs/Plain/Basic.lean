import Chip8.Machine.Step
import Chip8.Proofs.Memory.Access
import Chip8.Proofs.Screen.Sprite
import Mathlib.Algebra.Group.Nat.Defs

/-! # Machines of plain numbers

The state of a machine as natural numbers and functions of them. A step takes the
digits of the word at the program counter by division and remainder and obeys them
at once, without an instruction in between.
-/

namespace Chip8

structure PlainMachine where
  pixel : Nat → Nat → Bool
  register : Nat → Nat
  byte : Nat → Nat
  stack : List Nat
  pc : Nat
  index : Nat
  halted : Bool
  random : RandomSource

namespace PlainMachine

abbrev Result := PlainMachine × Except StepError Unit

variable (s : PlainMachine)

def halt (e : StepError) : Result := ({ s with halted := true }, .error e)

def outOfBounds (a : Nat) : Result := s.halt (.fault (.outOfBounds (.ofNat a)))

def goTo (a : Nat) : Result :=
  if a < 4096 then ({ s with pc := a }, .ok ()) else s.outOfBounds a

def skipIf (c : Prop) [Decidable c] : Result := s.goTo (if c then s.pc + 4 else s.pc + 2)

def assign (x v : Nat) : PlainMachine :=
  { s with register := fun i => if i = x then v else s.register i }

/-- The bit that the sprite at the index has for a cell, its corner being at (x, y). -/
def spriteBit (x y px py : Nat) : Bool :=
  s.byte (s.index + (py - y)) / 2 ^ (7 - (px - x)) % 2 = 1

def draw (x y rows : Nat) : Result :=
  let visible := min rows (32 - y)
  let readable := min visible (4096 - s.index)
  let drawn := { s with
    pixel := fun px py =>
      if Screen.Covers x y readable px py then s.spriteBit x y px py else s.pixel px py }
  let collision := ∃ px < 64, ∃ py < 32,
    Screen.Covers x y readable px py ∧ s.pixel px py = true ∧ s.spriteBit x y px py = true
  if readable < visible then drawn.outOfBounds (max s.index 4096)
  else (drawn.assign 15 (if collision then 1 else 0)).goTo (s.pc + 2)

def obey (w : Nat) : Result :=
  let x := w / 256 % 16
  let y := w / 16 % 16
  let n := w % 16
  let nn := w % 256
  let nnn := w % 4096
  let vx := s.register x
  let vy := s.register y
  let unknown := s.halt (.unknownInstruction (.ofNat w) (.ofNat s.pc))
  match w / 4096 with
  | 0x0 =>
    if w = 0x00E0 then { s with pixel := fun _ _ => false }.goTo (s.pc + 2)
    else if w = 0x00EE then
      match s.stack with
      | [] => s.halt (.fault .stackUnderflow)
      | r :: rest => { s with stack := rest }.goTo r
    else unknown
  | 0x1 => ({ s with pc := nnn }, .ok ())
  | 0x2 =>
    if 16 ≤ s.stack.length then s.halt (.fault .stackOverflow)
    else ({ s with stack := (s.pc + 2) :: s.stack, pc := nnn }, .ok ())
  | 0x3 => s.skipIf (vx = nn)
  | 0x4 => s.skipIf (vx ≠ nn)
  | 0x5 => s.skipIf (vx = vy)
  | 0x6 => (s.assign x nn).goTo (s.pc + 2)
  | 0x7 => (s.assign x ((vx + nn) % 256)).goTo (s.pc + 2)
  | 0x8 =>
    match n with
    | 0x0 => (s.assign x vy).goTo (s.pc + 2)
    | 0x1 => (s.assign x (vx ||| vy)).goTo (s.pc + 2)
    | 0x2 => (s.assign x (vx &&& vy)).goTo (s.pc + 2)
    | 0x3 => (s.assign x (vx ^^^ vy)).goTo (s.pc + 2)
    | _ => unknown
  | 0x9 => s.skipIf (vx ≠ vy)
  | 0xA => { s with index := nnn }.goTo (s.pc + 2)
  | 0xB => s.goTo (nnn + s.register 0)
  | 0xC =>
    let drawn := (RandomSource.byteAt s.random.key s.random.drawn).toNat
    { s.assign x (nn &&& drawn) with
      random := { s.random with drawn := s.random.drawn + 1 } }.goTo (s.pc + 2)
  | 0xD => s.draw vx vy n
  | _ => unknown

def step : Result :=
  if s.halted then (s, .error .halted)
  else if 4096 ≤ s.pc then s.outOfBounds s.pc
  else if s.pc = 4095 then s.outOfBounds 4096
  else s.obey (256 * s.byte s.pc + s.byte (s.pc + 1))

end PlainMachine

namespace Machine

def plain (m : Machine) : PlainMachine where
  pixel := m.screen.pixel
  register i := (m.registers.values[i]?.getD 0).toNat
  byte a := (m.memory.byte a).toNat
  stack := m.stack.entries.map UInt16.toNat
  pc := m.pc.toNat
  index := m.index.toNat
  halted := m.halted
  random := m.random

theorem plain_injective {m m' : Machine} (h : m.plain = m'.plain) : m = m' := by
  have screen : m.screen = m'.screen := Screen.ext_pixel fun x _ y _ =>
    congrFun (congrFun (congrArg PlainMachine.pixel h) x) y
  have values : m.registers.values = m'.registers.values := by
    apply Vector.ext
    intro i hi
    have hv := congrFun (congrArg PlainMachine.register h) i
    simpa [plain, hi, UInt8.toNat_inj] using hv
  have memory : m.memory = m'.memory := Memory.ext_byte fun a _ =>
    UInt8.toNat_inj.mp (congrFun (congrArg PlainMachine.byte h) a)
  have entries : m.stack.entries = m'.stack.entries :=
    (List.map_inj_right fun _ _ => UInt16.toNat_inj.mp).mp (congrArg PlainMachine.stack h)
  have pc : m.pc = m'.pc := UInt16.toNat_inj.mp (congrArg PlainMachine.pc h)
  have index : m.index = m'.index := UInt16.toNat_inj.mp (congrArg PlainMachine.index h)
  have halted := congrArg PlainMachine.halted h
  have random := congrArg PlainMachine.random h
  obtain ⟨_, ⟨_⟩, _, ⟨_⟩, _, _, _, _⟩ := m
  obtain ⟨_, ⟨_⟩, _, ⟨_⟩, _, _, _, _⟩ := m'
  subst screen values memory entries pc index halted random
  rfl

end Machine

end Chip8
