import Chip8.Random.ChaCha
/-!
Random words: a stream that its key fixes once and for all, read from the first word on. The state is the key
and the number of words read so far.
-/

namespace Chip8

structure Random where
  key : ChaCha.Key
  drawn : Nat := 0
  deriving DecidableEq

namespace Random

/-- The `n`-th word of the stream of a key, sixteen words to a block. -/
def word (key : ChaCha.Key) (n : Nat) : UInt32 :=
  (ChaCha.block key (UInt64.ofNat (n / 16)))[n % 16]

def next (r : Random) : UInt32 × Random :=
  (word r.key r.drawn, { r with drawn := r.drawn + 1 })

/-- One step of the congruential generator that spreads a seed over a key. -/
def stepSeed (s : UInt64) : UInt64 :=
  s * 6364136223846793005 + 11634580027462260723

def rotateRight (w n : UInt32) : UInt32 :=
  w >>> n ||| w <<< (32 - n)

def keyWord (s : UInt64) : UInt32 :=
  rotateRight (((s >>> 18) ^^^ s) >>> 27).toUInt32 (s >>> 59).toUInt32

def keyOfSeed (seed : UInt64) : ChaCha.Key :=
  Vector.ofFn fun i => keyWord (Nat.repeat stepSeed (i.val + 1) seed)

def ofSeed (seed : UInt64) : Random := { key := keyOfSeed seed }

end Random

end Chip8
