/-!
Held keys. A terminal reports presses only, so a key counts as released once it has not been pressed for a
time. The buffer is ordered by the latest press of each key; clock readings are passed in.
-/

namespace Chip8.Terminal

structure HeldKey where
  key : UInt8
  since : Nat
  deriving DecidableEq

structure KeyBuffer where
  timeout : Nat
  /-- Oldest first. -/
  held : List HeldKey := []
  deriving DecidableEq

namespace KeyBuffer

def holds (b : KeyBuffer) (key : UInt8) : Bool := b.held.any (·.key == key)

/-- Notes a press and tells whether the key was up before. A key that is down is only held for longer. -/
def press (b : KeyBuffer) (key : UInt8) (now : Nat) : Bool × KeyBuffer :=
  (!b.holds key, { b with held := b.held.eraseP (·.key == key) ++ [⟨key, now⟩] })

def due (b : KeyBuffer) (now : Nat) (h : HeldKey) : Bool := b.timeout ≤ now - h.since

def expire (b : KeyBuffer) (now : Nat) : List UInt8 × KeyBuffer :=
  ((b.held.takeWhile (b.due now)).map HeldKey.key, { b with held := b.held.dropWhile (b.due now) })

def nextExpiry (b : KeyBuffer) (now : Nat) : Option Nat :=
  b.held.head?.map fun h => h.since + b.timeout - now

end KeyBuffer

end Chip8.Terminal
