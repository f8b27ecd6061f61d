import Chip8.Emulator.Control
import Chip8.Emulator.Execution
/-!
The frame loop. A frame applies messages, announces itself to the host, executes a batch of instructions,
counts the timers down and forgets the key released last; whatever it comes to, it publishes a snapshot.
-/

namespace Chip8

inductive Outcome where
  | running
  | paused
  | halted
  | fault (error : Error)
  deriving DecidableEq, Repr

namespace Outcome

def isFinal : Outcome → Bool
  | running | paused => false
  | halted | fault _ => true

/-- How a frame of an emulator that no longer executes instructions ends. -/
def ofHalt : Halt → Outcome
  | .stopped | .aborted => halted
  | .fault error => fault error

end Outcome

namespace Emulator

variable {σ γ : Type}

def publish (e : Emulator σ γ) : Emulator σ γ := { e with published := some e.snapshot }

variable [Host σ γ]

def announce (e : Emulator σ γ) : Emulator σ γ :=
  { e.notify (.draw e.drawCount e.machine.screen) with
    drawCount := e.drawCount + 1
    meter := e.meter.tick }

def preview (e : Emulator σ γ) : Emulator σ γ :=
  e.notify (.decode e.machine.pc e.machine.opcode e.drawCount)

/-- Whether the host, having been told of the next instruction, stops in front of it. -/
def aborts (e : Emulator σ γ) : Bool :=
  Host.stopsAt e.preview.host e.machine.pc e.machine.opcode e.drawCount

/-- Executes up to `n` instructions, none behind a draw. The host and a failing instruction may halt it. -/
def executeBatch : Nat → Emulator σ γ → Emulator σ γ
  | 0, e => e
  | n + 1, e =>
    if e.aborts then { e.preview with halt := some .aborted }
    else
      match e.preview.cycle with
      | (.error _, e) => e
      | (.ok i, e) => if i.isDraw then e else executeBatch n e

def windUp (e : Emulator σ γ) : Emulator σ γ :=
  let sound := e.machine.sound.decrement
  { e with machine :=
    { e.machine with
      delay := e.machine.delay.decrement
      sound := sound.1
      keypad := e.machine.keypad.forget } }.sound sound.2

def perform (e : Emulator σ γ) : Outcome × Emulator σ γ :=
  match e.halt with
  | some halt => (.ofHalt halt, e)
  | none =>
    let e := e.announce
    if e.paused then (.paused, e)
    else
      let e := executeBatch e.ipf e
      match e.halt with
      | some halt => (.ofHalt halt, e)
      | none => (.running, e.windUp)

def frame (e : Emulator σ γ) : Outcome × Emulator σ γ :=
  let done := e.drain.perform
  (done.1, done.2.publish)

/-- Runs up to `n` frames, none behind a final one; the outcomes are in order. -/
def frames : Nat → Emulator σ γ → List Outcome × Emulator σ γ
  | 0, e => ([], e)
  | n + 1, e =>
    let first := e.frame
    if first.1.isFinal then ([first.1], first.2)
    else
      let rest := frames n first.2
      (first.1 :: rest.1, rest.2)

/-- Runs frames until a final one, but not more than `n`; there is no result if none of them was final. -/
def runWithin : Nat → Emulator σ γ → Option (Except Error Unit) × Emulator σ γ
  | 0, e => (none, e)
  | n + 1, e =>
    match e.frame with
    | (.halted, e) => (some (.ok ()), e)
    | (.fault error, e) => (some (.error error), e)
    | (.running, e) | (.paused, e) => runWithin n e

end Emulator

end Chip8
