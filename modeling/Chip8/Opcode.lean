/-!
Instruction words and the fields they are made of. The fields are taken by division, so that each one is a
digit of the word in base 16.
-/

namespace Chip8

abbrev Opcode := UInt16

namespace Opcode

/-- The word whose bytes are `high` and `low`, in the order in which memory holds them. -/
def ofBytes (high low : UInt8) : Opcode :=
  high.toUInt16 * 256 + low.toUInt16

def high (w : Opcode) : UInt8 := (w / 256).toUInt8

def low (w : Opcode) : UInt8 := (w % 256).toUInt8

def family (w : Opcode) : UInt8 := (w / 4096).toUInt8

def x (w : Opcode) : UInt8 := (w / 256 % 16).toUInt8

def y (w : Opcode) : UInt8 := (w / 16 % 16).toUInt8

def n (w : Opcode) : UInt8 := (w % 16).toUInt8

def nn (w : Opcode) : UInt8 := w.low

def nnn (w : Opcode) : UInt16 := w % 4096

/-- The word with the operand digits of its family cleared: what tells instructions apart. -/
def key (w : Opcode) : UInt16 :=
  match w.family.toNat with
  | 0x0 => w
  | 0x8 => 0x8000 + w % 16
  | 0xE => 0xE000 + w % 256
  | 0xF => 0xF000 + w % 256
  | _ => w - w % 4096

@[simp] theorem toNat_ofBytes (high low : UInt8) :
    (ofBytes high low).toNat = high.toNat * 256 + low.toNat := by
  have h := high.toNat_lt
  have l := low.toNat_lt
  simp [ofBytes]
  omega

@[simp] theorem toNat_high (w : Opcode) : w.high.toNat = w.toNat / 256 := by
  have h := w.toNat_lt
  simp [high]
  omega

@[simp] theorem toNat_low (w : Opcode) : w.low.toNat = w.toNat % 256 := by
  simp [low]

@[simp] theorem toNat_family (w : Opcode) : w.family.toNat = w.toNat / 4096 := by
  have h := w.toNat_lt
  simp [family]
  omega

@[simp] theorem toNat_x (w : Opcode) : w.x.toNat = w.toNat / 256 % 16 := by
  simp [x]
  omega

@[simp] theorem toNat_y (w : Opcode) : w.y.toNat = w.toNat / 16 % 16 := by
  simp [y]
  omega

@[simp] theorem toNat_n (w : Opcode) : w.n.toNat = w.toNat % 16 := by
  simp [n]
  omega

@[simp] theorem toNat_nn (w : Opcode) : w.nn.toNat = w.toNat % 256 := w.toNat_low

@[simp] theorem toNat_nnn (w : Opcode) : w.nnn.toNat = w.toNat % 4096 := by
  simp [nnn]

theorem ofBytes_high_low (w : Opcode) : ofBytes w.high w.low = w := by
  apply UInt16.toNat_inj.1
  simp
  omega

end Opcode

end Chip8
