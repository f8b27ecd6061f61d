import Chip8.CommandLine.Options
import Chip8.Controller
import Chip8.Emulator.Frame
import Chip8.Screen.Text
/-!
Running a program without a screen and printing what it drew. A run with a number of frames stops after them;
one without goes on until the program fails.
-/

namespace Chip8.CommandLine

def versionText : String := "chip-station 0.1.0\n"

abbrev Headless := Emulator Silence Unit

namespace Options

def config (o : Options) : Config :=
  { ipf := o.ipf
    seed := o.seed
    dialect := { shiftReadsVy := !o.shiftInPlace } }

def start (o : Options) (rom : List UInt8) (key : ChaCha.Key) : Except Error Headless := do
  let link : Link Silence Unit := .live (.create .standard {} o.config key)
  let link ← link.trySend (.swapRom rom)
  let link ← if o.startPaused then .ok link else link.trySend .resume
  match link with
  | .live e => .ok e
  | .gone _ => .error .disconnected

end Options

abbrev Report := Except Error String

namespace Headless

def reportAfter (n : Nat) (e : Headless) : Report :=
  match e.runWithin n with
  | (some (.error error), _) => .error error
  | (_, e) => .ok e.machine.screen.text

/-- Runs a frame, which gives the report if it is final and else what to go on with. -/
def advance (e : Headless) : Report ⊕ Headless :=
  match e.runWithin 1 with
  | (some (.error error), _) => .inl (.error error)
  | (some (.ok ()), e) => .inl (.ok e.machine.screen.text)
  | (none, e) => .inr e

/-- Runs until a final frame, but not more than `n` frames; there is no report if none of them was final. -/
def reportWithin (n : Nat) (e : Headless) : Option Report :=
  match e.runWithin n with
  | (some (.error error), _) => some (.error error)
  | (some (.ok ()), e) => some (.ok e.machine.screen.text)
  | (none, _) => none

end Headless

end Chip8.CommandLine
