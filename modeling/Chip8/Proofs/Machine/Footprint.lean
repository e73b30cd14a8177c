import Chip8.Proofs.Machine.Alike
import Chip8.Proofs.Memory.Change

/-! # What a step reads of memory

A step reads the two bytes at the program counter and, if they are a draw, the rows
of the sprite that lie above the bottom edge. Bytes that are not read can be
exchanged without a difference to anything but memory, in one step and in a run.
-/

namespace Chip8

namespace Machine

variable {m : Machine} {memory : Memory}

/-- How many rows of a sprite a step draws; those below the bottom edge are not looked at. -/
def spriteRows (m : Machine) : Nat :=
  match m.executing? with
  | some (.draw _ y rows) => min rows.toNat (32 - (m.registers.get y).toNat)
  | _ => 0

/-- The addresses that a step reads from. -/
def Reads (m : Machine) (a : Nat) : Prop :=
  m.halted = false ∧ (a = m.pc.toNat ∨ a = m.pc.toNat + 1) ∨
    m.index.toNat ≤ a ∧ a < m.index.toNat + m.spriteRows

instance (m : Machine) (a : Nat) : Decidable (m.Reads a) :=
  inferInstanceAs (Decidable (_ ∧ _ ∨ _ ∧ _))

/-- Another memory holds the same wherever a step reads. -/
def Agrees (m : Machine) (memory : Memory) : Prop :=
  ∀ a < 4096, m.Reads a → memory.byte a = m.memory.byte a

theorem Agrees.byte_eq (agree : m.Agrees memory) {a : Nat} (h : m.Reads a) :
    memory.byte a = m.memory.byte a := by
  rcases Nat.lt_or_ge a 4096 with low | high
  · exact agree a low h
  · rw [memory.byte_eq_zero high, m.memory.byte_eq_zero high]

theorem Agrees.fetch_eq (agree : m.Agrees memory) (running : m.halted = false) :
    { m with memory }.fetch = m.fetch := by
  have same : { m with memory }.word = m.word := by
    rw [word, word, agree.byte_eq (Or.inl ⟨running, Or.inl rfl⟩),
      agree.byte_eq (Or.inl ⟨running, Or.inr rfl⟩)]
  rw [Machine.fetch_eq, Machine.fetch_eq, same]

theorem Agrees.sprite_eq (agree : m.Agrees memory) {x y rows : UInt8}
    (h : m.executing? = some (.draw x y rows)) :
    { m with memory }.sprite x y rows = m.sprite x y rows := by
  apply Screen.paint_congr
  intro k low high
  have index : m.index.toUInt64.toNat = m.index.toNat := UInt16.toNat_toUInt64 _
  have drawn : m.spriteRows = min rows.toNat (32 - (m.registers.get y).toNat) := by
    rw [spriteRows, h]
  rw [index] at low high
  refine agree.byte_eq (Or.inr ⟨low, ?_⟩)
  simp only [Screen.readableRows] at high
  omega

def DifferInMemory (memory : Memory) (m m' : Machine) : Prop := m' = { m with memory }

theorem veil_differInMemory (memory : Memory) : Veil (DifferInMemory memory) where
  halted := by
    rintro m _ rfl
    rfl
  pc := by
    rintro m _ rfl
    rfl
  halt := by
    rintro m _ rfl
    rfl
  move := by
    rintro a m _ rfl
    rfl

theorem obeyed_withMemory {i : Instruction} (drawn : ∀ x y rows, i = .draw x y rows →
    { m with memory }.sprite x y rows = m.sprite x y rows) :
    { m with memory }.destination i = m.destination i ∧
      { m with memory }.effect i = { m.effect i with memory } := by
  cases i with
  | draw x y rows => simp [destination, effect, drawn x y rows rfl]
  | _ => exact ⟨rfl, rfl⟩

theorem Agrees.step_alike (agree : m.Agrees memory) :
    Cycle.Alike (DifferInMemory memory) m.step { m with memory }.step := by
  refine (veil_differInMemory memory).step_alike rfl agree.fetch_eq ?_
  intro i he
  exact obeyed_withMemory fun x y rows hi => agree.sprite_eq (hi ▸ he)

theorem agrees_set {a : Nat} (h : a < 4096) (v : UInt8) (unread : ¬ m.Reads a) :
    m.Agrees ⟨m.memory.bytes.set a v⟩ := by
  intro b _ reads
  rw [Memory.byte_set, if_neg]
  rintro rfl
  exact unread reads

/-- A machine whose memory agrees with another one on all that a step reads steps as with the
other memory. As long as that holds of the steps of a run, the run is the same but for memory,
which no run changes. -/
theorem unread_unseen (m : Machine) (memory : Memory) :
    (m.Agrees memory →
      { m with memory }.step.result = m.step.result ∧
      { m with memory }.step.machine = { m.step.machine with memory } ∧
      m.step.machine.memory = m.memory) ∧
    ∀ n, (∀ k < n, (m.after k).Agrees memory) →
      (∀ k < n, ({ m with memory }.after k).step.result = (m.after k).step.result) ∧
      ∀ k ≤ n, { m with memory }.after k = { m.after k with memory } ∧
        (m.after k).memory = m.memory := by
  constructor
  · intro agree
    have alike := agree.step_alike
    exact ⟨alike.result, alike.related, m.memory_step⟩
  · intro n agree
    have start : DifferInMemory memory m { m with memory } := rfl
    obtain ⟨alike, related⟩ := after_alike start (n := n) <| by
      rintro k hk _ rfl
      exact (agree k hk).step_alike
    exact ⟨fun k hk => (alike k hk).result, fun k hk => ⟨related k hk, m.memory_after k⟩⟩

/-- A machine about to draw five rows, of which three lie below the bottom edge. -/
def clippedDraw : Machine :=
  (fresh ⟨.replicate 8 0, 0⟩).leftBy
    [.writeWord 0x200 0xD015, .setRegister 1 30, .setIndex 0x300]

def alteredDraw : Machine :=
  { clippedDraw with memory := ⟨clippedDraw.memory.bytes.set 0x302 0xFF⟩ }

theorem unread_unseen_clippedDraw :
    (clippedDraw.Reads 0x301 ∧ ¬ clippedDraw.Reads 0x302) ∧
    (∀ k < 2, (alteredDraw.after k).step.result = (clippedDraw.after k).step.result) ∧
    ∀ k ≤ 2, alteredDraw.after k = { clippedDraw.after k with memory := alteredDraw.memory } ∧
      (clippedDraw.after k).memory = clippedDraw.memory := by
  refine ⟨by decide +kernel, ?_⟩
  apply (unread_unseen clippedDraw alteredDraw.memory).2
  have unread : ∀ k < 2, ¬ (clippedDraw.after k).Reads 0x302 := by decide +kernel
  intro k hk
  rw [alteredDraw, ← clippedDraw.memory_after k]
  exact agrees_set (by decide) 0xFF (unread k hk)

end Machine

end Chip8
