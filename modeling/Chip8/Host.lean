import Chip8.Opcode
import Chip8.Screen.Basic
import Chip8.Timer
/-!
What an emulator tells its host. A host is a state that takes events one after another and may stop the
emulator in front of an instruction.
-/

namespace Chip8

inductive Event (γ : Type) where
  | decode (pc : UInt16) (opcode : Opcode) (drawCount : Nat)
  | draw (drawCount : Nat) (screen : Screen)
  | tone (tone : Tone)
  | custom (payload : γ)

class Host (σ : Type) (γ : outParam Type) where
  notify : σ → Event γ → σ
  /-- Whether the host, having been told of the instruction, stops the emulator in front of it. -/
  stopsAt : σ → UInt16 → Opcode → Nat → Bool

structure Silence where

instance : Host Silence Unit where
  notify host _ := host
  stopsAt _ _ _ _ := false

end Chip8
