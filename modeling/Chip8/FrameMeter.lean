/-!
Counts frames for an estimate of the frame rate. Frames shown while time stands still are not counted.
-/

namespace Chip8

structure FrameMeter where
  frames : Nat := 0
  paused : Bool := false
  deriving DecidableEq

namespace FrameMeter

def tick (m : FrameMeter) : FrameMeter :=
  if m.paused then m else { m with frames := m.frames + 1 }

def pause (m : FrameMeter) : FrameMeter := { m with paused := true }

def resume (m : FrameMeter) : FrameMeter := { m with paused := false }

def reset (m : FrameMeter) : FrameMeter := { m with frames := 0 }

/-- Frames in a second, given the nanoseconds that the meter has been running. -/
def rate (m : FrameMeter) (nanoseconds : Nat) : Float :=
  if nanoseconds = 0 then 0.0
  else Float.ofNat m.frames / (Float.ofNat nanoseconds / 1.0e9)

end FrameMeter

end Chip8
