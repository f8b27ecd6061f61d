import Chip8.Error
import Chip8.Keypad
import Chip8.Memory
/-!
Commands for an emulator, and the ones among them that can never be carried out.
-/

namespace Chip8

/-- A command. `γ` is what a host may send to itself. -/
inductive Message (γ : Type) where
  | pause
  | resume
  | swapRom (rom : List UInt8)
  | setIpf (ipf : Nat)
  | setMemory (address : UInt16) (data : List UInt8)
  | setKey (key : UInt8) (down : Bool)
  | stop
  | custom (payload : γ)
  deriving DecidableEq

def checkRom (rom : List UInt8) : Except Error Unit :=
  if rom.length ≤ maxRomSize then .ok () else .error (.romTooLarge rom.length maxRomSize)

def checkKey (key : UInt8) : Except Error Unit :=
  if key.toNat < Keypad.size then .ok () else .error (.invalidKey key)

namespace Message

variable {γ : Type}

def name : Message γ → String
  | pause => "pause"
  | resume => "resume"
  | swapRom _ => "ROM swap"
  | setIpf _ => "IPF change"
  | setMemory .. => "memory write"
  | setKey .. => "key state"
  | stop => "stop"
  | custom _ => "custom message"

def validate : Message γ → Except Error Unit
  | swapRom rom => checkRom rom
  | setKey key _ => checkKey key
  | _ => .ok ()

def isStop : Message γ → Bool
  | stop => true
  | _ => false

end Message

end Chip8
