import Chip8.Random.ChaCha

/-! # Random bytes

A seed is stretched to a key, the key gives a stream of words, and each draw
takes the low byte of the next word. The position in the stream counts the draws.
-/

namespace Chip8

structure RandomSource where
  key : ChaCha.Key
  drawn : Nat
  deriving DecidableEq, Repr

namespace RandomSource

/-- The state after one step of the congruential generator that stretches seeds. -/
def stretch (s : UInt64) : UInt64 := s * 6364136223846793005 + 11634580027462260723

def rotateRight (w n : UInt32) : UInt32 := (w >>> n) ||| (w <<< ((32 - n) % 32))

/-- A word of the key: the mixed high bits of a state, rotated by its top five bits. -/
def keyWord (s : UInt64) : UInt32 :=
  rotateRight (((s >>> 18) ^^^ s) >>> 27).toUInt32 (s >>> 59).toUInt32

def keyOfSeed (seed : UInt64) : ChaCha.Key :=
  Vector.ofFn fun i => keyWord (Nat.repeat stretch (i.val + 1) seed)

def ofSeed (seed : UInt64) : RandomSource := ⟨keyOfSeed seed, 0⟩

def byteAt (key : ChaCha.Key) (n : Nat) : UInt8 := (ChaCha.streamWord key n).toUInt8

def draw (r : RandomSource) : UInt8 × RandomSource :=
  (byteAt r.key r.drawn, { r with drawn := r.drawn + 1 })

end RandomSource

end Chip8
