import Chip8.Hexadecimal
/-!
What can go wrong: faults of the machine, and commands that are turned away before they reach it.
-/

namespace Chip8

inductive Error where
  | unknownOpcode (opcode pc : UInt16)
  | stackOverflow (pc : UInt16)
  | stackUnderflow (pc : UInt16)
  | romTooLarge (size max : Nat)
  | invalidKey (key : UInt8)
  | queueFull
  | disconnected
  deriving DecidableEq, Repr

namespace Error

def message : Error → String
  | unknownOpcode opcode pc =>
    "unknown opcode " ++ Hexadecimal.text 4 opcode.toNat ++ " at " ++ Hexadecimal.text 3 pc.toNat
  | stackOverflow pc =>
    "stack overflow: call at " ++ Hexadecimal.text 3 pc.toNat ++ " exceeds the call depth"
  | stackUnderflow pc =>
    "stack underflow: return at " ++ Hexadecimal.text 3 pc.toNat ++ " with an empty call stack"
  | romTooLarge size max =>
    "ROM is too large (" ++ toString size ++ " bytes), max size is " ++ toString max ++ " bytes"
  | invalidKey key => "key " ++ Hexadecimal.text 1 key.toNat ++ " is not on the keypad"
  | queueFull => "message queue is full"
  | disconnected => "the emulator is gone"

/-- A fatal error halts the machine; the others refuse a command and change nothing. -/
def isFatal : Error → Bool
  | unknownOpcode .. | stackOverflow .. | stackUnderflow .. => true
  | romTooLarge .. | invalidKey .. | queueFull | disconnected => false

/-- A constructor with its fields in decimal, as the command line reports the reason for a failed run. -/
def diagnostic : Error → String
  | unknownOpcode opcode pc =>
    "UnknownOpcode \x7b opcode: " ++ toString opcode.toNat ++ ", pc: " ++ toString pc.toNat ++ " \x7d"
  | stackOverflow pc => "StackOverflow \x7b pc: " ++ toString pc.toNat ++ " \x7d"
  | stackUnderflow pc => "StackUnderflow \x7b pc: " ++ toString pc.toNat ++ " \x7d"
  | romTooLarge size max =>
    "RomTooLarge \x7b size: " ++ toString size ++ ", max: " ++ toString max ++ " \x7d"
  | invalidKey key => "InvalidKey(" ++ toString key.toNat ++ ")"
  | queueFull => "QueueFull"
  | disconnected => "Disconnected"

end Error

end Chip8
