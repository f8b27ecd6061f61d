import Chip8.Main
import Chip8.Proofs.CallStack.LastInFirstOut
import Chip8.Proofs.CommandLine.Headless
import Chip8.Proofs.Emulator.Assembly
import Chip8.Proofs.Emulator.Audible
import Chip8.Proofs.Emulator.CallReturn
import Chip8.Proofs.Emulator.Counters
import Chip8.Proofs.Emulator.Dormancy
import Chip8.Proofs.Emulator.Faults
import Chip8.Proofs.Emulator.Footprint
import Chip8.Proofs.Emulator.FrameCycles
import Chip8.Proofs.Emulator.Halting
import Chip8.Proofs.Emulator.Interruption
import Chip8.Proofs.Emulator.KeyWait
import Chip8.Proofs.Emulator.LastWins
import Chip8.Proofs.Emulator.Pace
import Chip8.Proofs.Emulator.ProgramCounter
import Chip8.Proofs.Emulator.Publication
import Chip8.Proofs.Emulator.RandomWords
import Chip8.Proofs.Emulator.RomSwap
import Chip8.Proofs.Emulator.StraightLine
import Chip8.Proofs.Emulator.Submission
import Chip8.Proofs.Emulator.Termination
import Chip8.Proofs.Machine.Arithmetic
import Chip8.Proofs.Machine.Drawing
import Chip8.Proofs.Machine.Reach
import Chip8.Proofs.Machine.RoundTrip
import Chip8.Proofs.Memory.Clipping
import Chip8.Proofs.Screen.Superposition
import Chip8.Proofs.Terminal.HeldKeys
import Chip8.Proofs.Terminal.Redraw
import Chip8.Proofs.Terminal.Replies
import Chip8.Proofs.Terminal.TimedKeys
