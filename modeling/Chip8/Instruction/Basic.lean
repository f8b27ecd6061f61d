import Chip8.Opcode
/-!
The instruction set. A register operand counts modulo 16 and an operand may be any byte or word, as an
instruction given directly to the machine need not come from an opcode.
-/

namespace Chip8

inductive Instruction where
  | clear -- 00E0
  | ret -- 00EE
  | jump (target : UInt16) -- 1NNN
  | call (target : UInt16) -- 2NNN
  | skipEqByte (x nn : UInt8) -- 3XNN
  | skipNeByte (x nn : UInt8) -- 4XNN
  | skipEq (x y : UInt8) -- 5XY0
  | loadByte (x nn : UInt8) -- 6XNN
  | addByte (x nn : UInt8) -- 7XNN
  | copy (x y : UInt8) -- 8XY0
  | bitOr (x y : UInt8) -- 8XY1
  | bitAnd (x y : UInt8) -- 8XY2
  | bitXor (x y : UInt8) -- 8XY3
  | add (x y : UInt8) -- 8XY4
  | sub (x y : UInt8) -- 8XY5
  | shiftRight (x y : UInt8) -- 8XY6
  | subFrom (x y : UInt8) -- 8XY7
  | shiftLeft (x y : UInt8) -- 8XYE
  | skipNe (x y : UInt8) -- 9XY0
  | loadIndex (address : UInt16) -- ANNN
  | jumpOffset (base : UInt16) -- BNNN
  | random (x mask : UInt8) -- CXNN
  | draw (x y height : UInt8) -- DXYN
  | skipPressed (x : UInt8) -- EX9E
  | skipReleased (x : UInt8) -- EXA1
  | readDelay (x : UInt8) -- FX07
  | awaitKey (x : UInt8) -- FX0A
  | setDelay (x : UInt8) -- FX15
  | setSound (x : UInt8) -- FX18
  | addIndex (x : UInt8) -- FX1E
  | pointGlyph (x : UInt8) -- FX29
  | storeDecimal (x : UInt8) -- FX33
  | storeRegisters (x : UInt8) -- FX55
  | loadRegisters (x : UInt8) -- FX65
  deriving DecidableEq, Repr

namespace Instruction

/-- A draw ends the batch of instructions of its frame. -/
def isDraw : Instruction → Bool
  | draw .. => true
  | _ => false

end Instruction

end Chip8
