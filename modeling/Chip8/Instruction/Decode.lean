import Chip8.Instruction.Basic
/-!
Opcodes to instructions and back. `decode` reads a word family by family; `encode` writes an instruction in
the digits of its pattern.
-/

namespace Chip8.Instruction

/-- Words `8XYN`. -/
def decodeArithmetic (w : Opcode) : Option Instruction :=
  match w.n.toNat with
  | 0x0 => some (copy w.x w.y)
  | 0x1 => some (bitOr w.x w.y)
  | 0x2 => some (bitAnd w.x w.y)
  | 0x3 => some (bitXor w.x w.y)
  | 0x4 => some (add w.x w.y)
  | 0x5 => some (sub w.x w.y)
  | 0x6 => some (shiftRight w.x w.y)
  | 0x7 => some (subFrom w.x w.y)
  | 0xE => some (shiftLeft w.x w.y)
  | _ => none

/-- Words `FXNN`. -/
def decodeDevice (w : Opcode) : Option Instruction :=
  match w.nn.toNat with
  | 0x07 => some (readDelay w.x)
  | 0x0A => some (awaitKey w.x)
  | 0x15 => some (setDelay w.x)
  | 0x18 => some (setSound w.x)
  | 0x1E => some (addIndex w.x)
  | 0x29 => some (pointGlyph w.x)
  | 0x33 => some (storeDecimal w.x)
  | 0x55 => some (storeRegisters w.x)
  | 0x65 => some (loadRegisters w.x)
  | _ => none

def decode (w : Opcode) : Option Instruction :=
  match w.family.toNat with
  | 0x0 => if w = 0x00E0 then some clear else if w = 0x00EE then some ret else none
  | 0x1 => some (jump w.nnn)
  | 0x2 => some (call w.nnn)
  | 0x3 => some (skipEqByte w.x w.nn)
  | 0x4 => some (skipNeByte w.x w.nn)
  | 0x5 => if w.n = 0 then some (skipEq w.x w.y) else none
  | 0x6 => some (loadByte w.x w.nn)
  | 0x7 => some (addByte w.x w.nn)
  | 0x8 => decodeArithmetic w
  | 0x9 => if w.n = 0 then some (skipNe w.x w.y) else none
  | 0xA => some (loadIndex w.nnn)
  | 0xB => some (jumpOffset w.nnn)
  | 0xC => some (random w.x w.nn)
  | 0xD => some (draw w.x w.y w.n)
  | 0xE =>
    if w.nn = 0x9E then some (skipPressed w.x)
    else if w.nn = 0xA1 then some (skipReleased w.x)
    else none
  | _ => decodeDevice w

/-- A word of the form `FXNN`. -/
def packByte (family x nn : UInt8) : Opcode :=
  family.toUInt16 * 4096 + x.toUInt16 * 256 + nn.toUInt16

/-- A word of the form `FXYN`. -/
def packDigits (family x y n : UInt8) : Opcode :=
  family.toUInt16 * 4096 + x.toUInt16 * 256 + y.toUInt16 * 16 + n.toUInt16

/-- A word of the form `FNNN`. -/
def packAddress (family : UInt8) (nnn : UInt16) : Opcode :=
  family.toUInt16 * 4096 + nnn

/-- The word that stands for an instruction whose operands are in range. -/
def encode : Instruction → Opcode
  | clear => 0x00E0
  | ret => 0x00EE
  | jump target => packAddress 0x1 target
  | call target => packAddress 0x2 target
  | skipEqByte x nn => packByte 0x3 x nn
  | skipNeByte x nn => packByte 0x4 x nn
  | skipEq x y => packDigits 0x5 x y 0x0
  | loadByte x nn => packByte 0x6 x nn
  | addByte x nn => packByte 0x7 x nn
  | copy x y => packDigits 0x8 x y 0x0
  | bitOr x y => packDigits 0x8 x y 0x1
  | bitAnd x y => packDigits 0x8 x y 0x2
  | bitXor x y => packDigits 0x8 x y 0x3
  | add x y => packDigits 0x8 x y 0x4
  | sub x y => packDigits 0x8 x y 0x5
  | shiftRight x y => packDigits 0x8 x y 0x6
  | subFrom x y => packDigits 0x8 x y 0x7
  | shiftLeft x y => packDigits 0x8 x y 0xE
  | skipNe x y => packDigits 0x9 x y 0x0
  | loadIndex address => packAddress 0xA address
  | jumpOffset base => packAddress 0xB base
  | random x mask => packByte 0xC x mask
  | draw x y height => packDigits 0xD x y height
  | skipPressed x => packByte 0xE x 0x9E
  | skipReleased x => packByte 0xE x 0xA1
  | readDelay x => packByte 0xF x 0x07
  | awaitKey x => packByte 0xF x 0x0A
  | setDelay x => packByte 0xF x 0x15
  | setSound x => packByte 0xF x 0x18
  | addIndex x => packByte 0xF x 0x1E
  | pointGlyph x => packByte 0xF x 0x29
  | storeDecimal x => packByte 0xF x 0x33
  | storeRegisters x => packByte 0xF x 0x55
  | loadRegisters x => packByte 0xF x 0x65

/-- Registers and sprite heights have one digit and addresses three. -/
def InRange : Instruction → Prop
  | clear | ret => True
  | jump a | call a | loadIndex a | jumpOffset a => a < 4096
  | skipEqByte x _ | skipNeByte x _ | loadByte x _ | addByte x _ | random x _ => x < 16
  | skipEq x y | copy x y | bitOr x y | bitAnd x y | bitXor x y | add x y | sub x y
  | shiftRight x y | subFrom x y | shiftLeft x y | skipNe x y => x < 16 ∧ y < 16
  | draw x y height => x < 16 ∧ y < 16 ∧ height < 16
  | skipPressed x | skipReleased x | readDelay x | awaitKey x | setDelay x | setSound x
  | addIndex x | pointGlyph x | storeDecimal x | storeRegisters x | loadRegisters x => x < 16

end Chip8.Instruction
