/-!
Settings: the choices in which interpreters of the instruction set differ, and the pace of the emulator.
-/

namespace Chip8

structure Dialect where
  /-- `8XY6` and `8XYE` shift VY into VX; otherwise they shift VX in place. -/
  shiftReadsVy : Bool := true
  /-- `8XY1`, `8XY2` and `8XY3` clear VF. -/
  logicResetsVf : Bool := true
  /-- `FX55` and `FX65` leave the index past the last register copied. -/
  memoryAdvancesIndex : Bool := true
  deriving DecidableEq, Repr

structure Config where
  /-- Instructions in a frame, at most. -/
  ipf : Nat := 11
  frameRate : Nat := 60
  /-- Messages that may wait; there is always room for one. -/
  queueCapacity : Nat := 64
  /-- Messages applied at the start of a frame, at most. -/
  messagesPerFrame : Nat := 20
  dialect : Dialect := {}
  /-- Fixes the random words; without it they are taken from elsewhere. -/
  seed : Option UInt64 := none
  deriving DecidableEq

/-- The nanoseconds that one frame may take. -/
def Config.frameBudget (c : Config) : Nat :=
  1000000000 / max c.frameRate 1

end Chip8
