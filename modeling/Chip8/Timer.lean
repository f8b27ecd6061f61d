/-!
The two count-down timers. The sound timer also says when the tone has to be switched on or off: the tone is
meant to sound while the timer is not zero and time goes on.
-/

namespace Chip8

inductive Tone where
  | on
  | off
  deriving DecidableEq, Repr

structure DelayTimer where
  count : UInt8 := 0
  deriving DecidableEq

structure SoundTimer where
  count : UInt8 := 0
  deriving DecidableEq

namespace DelayTimer

def decrement (t : DelayTimer) : DelayTimer :=
  if t.count = 0 then t else ⟨t.count - 1⟩

end DelayTimer

namespace SoundTimer

/-- Setting the timer to zero is silent, even while the tone sounds. -/
def set (v : UInt8) : SoundTimer × Option Tone :=
  (⟨v⟩, if v = 0 then none else some .on)

def decrement (t : SoundTimer) : SoundTimer × Option Tone :=
  if t.count = 0 then (t, none)
  else (⟨t.count - 1⟩, if t.count = 1 then some .off else none)

def pause (t : SoundTimer) : Option Tone :=
  if t.count = 0 then none else some .off

def resume (t : SoundTimer) : Option Tone :=
  if t.count = 0 then none else some .on

def reset (t : SoundTimer) : SoundTimer × Option Tone :=
  ({}, t.pause)

end SoundTimer

end Chip8
