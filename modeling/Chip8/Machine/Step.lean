import Chip8.Instruction.Decode
import Chip8.Machine.Execute
/-!
One cycle of the machine: fetch, decode and execute. `fetched` is what a cycle that fails leaves behind.
-/

namespace Chip8

structure Step extends Effect where
  instruction : Instruction

namespace Machine

def fetched (m : Machine) : Machine := { m with pc := m.pc + 2 }

def counted (m : Machine) : Machine := { m with cycles := m.cycles + 1 }

def step (m : Machine) : Except Error Step :=
  match Instruction.decode m.opcode with
  | none => .error (.unknownOpcode m.opcode m.pc)
  | some i =>
    match m.fetched.execute i with
    | .ok effect => .ok { machine := effect.machine.counted, tone := effect.tone, instruction := i }
    | .error e => .error e

end Machine

end Chip8
