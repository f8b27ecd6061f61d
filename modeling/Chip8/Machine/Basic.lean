import Chip8.CallStack
import Chip8.Config
import Chip8.Keypad
import Chip8.Memory
import Chip8.Random.Basic
import Chip8.Registers
import Chip8.Screen.Basic
import Chip8.Timer
/-!
The machine: all that a program can see or change, and the number of instructions it has executed.
-/

namespace Chip8

structure Machine where
  memory : Memory
  registers : Registers := {}
  index : UInt16 := 0
  pc : UInt16 := romStart
  stack : CallStack := .empty
  screen : Screen := .blank
  keypad : Keypad := .idle
  delay : DelayTimer := {}
  sound : SoundTimer := {}
  cycles : Nat := 0
  random : Random
  dialect : Dialect := {}
  deriving DecidableEq

namespace Machine

def opcode (m : Machine) : Opcode := m.memory.opcode m.pc

/-- Puts everything but the memory, the random words, the cycle count and the dialect back to the start. -/
def reset (m : Machine) : Machine :=
  { memory := m.memory, cycles := m.cycles, random := m.random, dialect := m.dialect }

def loadRom (m : Machine) (rom : List UInt8) : Machine :=
  { m with memory := m.memory.loadRom rom }

end Machine

end Chip8
