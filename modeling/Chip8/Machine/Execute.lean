import Chip8.Instruction.Basic
import Chip8.Machine.Basic
/-!
The effect of a single instruction. The program counter is past the instruction already, so its own address is
two less; an instruction that fails has no effect at all.
-/

namespace Chip8

structure Effect where
  machine : Machine
  tone : Option Tone := none

namespace Machine

def reg (m : Machine) (x : UInt8) : UInt8 := m.registers.get x

def setReg (m : Machine) (x v : UInt8) : Machine :=
  { m with registers := m.registers.set x v }

/-- Writes a result and then the flag, so that the flag wins where both go to VF. -/
def setResult (m : Machine) (x v : UInt8) (flag : Bool) : Machine :=
  (m.setReg x v).setReg Registers.flag flag.toUInt8

def setLogic (m : Machine) (x v : UInt8) : Machine :=
  if m.dialect.logicResetsVf then m.setResult x v false else m.setReg x v

def here (m : Machine) : UInt16 := m.pc - 2

def skipIf (m : Machine) (c : Bool) : Machine :=
  if c then { m with pc := m.pc + 2 } else m

def shiftSource (m : Machine) (x y : UInt8) : UInt8 :=
  if m.dialect.shiftReadsVy then m.reg y else m.reg x

def advanceIndex (m : Machine) (x : UInt8) : Machine :=
  if m.dialect.memoryAdvancesIndex then { m with index := m.index + (x.toUInt16 + 1) } else m

def block (m : Machine) (n : Nat) : List UInt8 := m.memory.readMany m.index n

def store (m : Machine) (bytes : List UInt8) : Machine :=
  { m with memory := m.memory.writeMany m.index bytes }

def drawSprite (m : Machine) (x y : UInt8) (sprite : List UInt8) : Machine :=
  let drawn := m.screen.draw (m.reg x) (m.reg y) sprite
  { m with screen := drawn.1 }.setReg Registers.flag drawn.2.toUInt8

/-- Takes the key released last, or goes back to wait for one. -/
def awaitKey (m : Machine) (x : UInt8) : Machine :=
  match m.keypad.lastReleased with
  | some key => m.setReg x key
  | none => { m with pc := m.here }

def drawRandom (m : Machine) (x mask : UInt8) : Machine :=
  let drawn := m.random.next
  { m with random := drawn.2 }.setReg x (drawn.1.toUInt8 &&& mask)

def decimal (v : UInt8) : List UInt8 := [v / 100, v / 10 % 10, v % 10]

def quiet (m : Machine) : Except Error Effect := .ok { machine := m }

def execute (m : Machine) : Instruction → Except Error Effect
  | .clear => quiet { m with screen := .blank }
  | .ret =>
    match m.stack.pop m.here with
    | .ok (target, stack) => quiet { m with stack := stack, pc := target }
    | .error e => .error e
  | .jump target => quiet { m with pc := target }
  | .call target =>
    match m.stack.push m.pc m.here with
    | .ok stack => quiet { m with stack := stack, pc := target }
    | .error e => .error e
  | .skipEqByte x nn => quiet (m.skipIf (m.reg x == nn))
  | .skipNeByte x nn => quiet (m.skipIf (m.reg x != nn))
  | .skipEq x y => quiet (m.skipIf (m.reg x == m.reg y))
  | .loadByte x nn => quiet (m.setReg x nn)
  | .addByte x nn => quiet (m.setReg x (m.reg x + nn))
  | .copy x y => quiet (m.setReg x (m.reg y))
  | .bitOr x y => quiet (m.setLogic x (m.reg x ||| m.reg y))
  | .bitAnd x y => quiet (m.setLogic x (m.reg x &&& m.reg y))
  | .bitXor x y => quiet (m.setLogic x (m.reg x ^^^ m.reg y))
  | .add x y =>
    quiet (m.setResult x (m.reg x + m.reg y) (256 ≤ (m.reg x).toNat + (m.reg y).toNat))
  | .sub x y => quiet (m.setResult x (m.reg x - m.reg y) (m.reg y ≤ m.reg x))
  | .shiftRight x y =>
    let source := m.shiftSource x y
    quiet (m.setResult x (source / 2) (source % 2 = 1))
  | .subFrom x y => quiet (m.setResult x (m.reg y - m.reg x) (m.reg x ≤ m.reg y))
  | .shiftLeft x y =>
    let source := m.shiftSource x y
    quiet (m.setResult x (source * 2) (128 ≤ source))
  | .skipNe x y => quiet (m.skipIf (m.reg x != m.reg y))
  | .loadIndex address => quiet { m with index := address }
  | .jumpOffset base => quiet { m with pc := base + (m.reg 0).toUInt16 }
  | .random x mask => quiet (m.drawRandom x mask)
  | .draw x y height => quiet (m.drawSprite x y (m.block height.toNat))
  | .skipPressed x => quiet (m.skipIf (m.keypad.pressed (m.reg x)))
  | .skipReleased x => quiet (m.skipIf (!m.keypad.pressed (m.reg x)))
  | .readDelay x => quiet (m.setReg x m.delay.count)
  | .awaitKey x => quiet (m.awaitKey x)
  | .setDelay x => quiet { m with delay := ⟨m.reg x⟩ }
  | .setSound x =>
    let set := SoundTimer.set (m.reg x)
    .ok { machine := { m with sound := set.1 }, tone := set.2 }
  | .addIndex x => quiet { m with index := m.index + (m.reg x).toUInt16 }
  | .pointGlyph x => quiet { m with index := (m.reg x).toUInt16 * UInt16.ofNat glyphSize }
  | .storeDecimal x => quiet (m.store (decimal (m.reg x)))
  | .storeRegisters x => quiet ((m.store (m.registers.upTo x)).advanceIndex x)
  | .loadRegisters x =>
    quiet ({ m with registers := m.registers.setMany 0 (m.block (x.toNat + 1)) }.advanceIndex x)

/-- Whether the machine can hold what an instruction asks for: a sprite of at most sixteen rows, a target that
is still an address. Every decoded instruction passes; one that is given directly need not. -/
def accepts (m : Machine) : Instruction → Bool
  | .draw _ _ height => height ≤ 16
  | .jumpOffset base => base.toNat + (m.reg 0).toNat < 65536
  | _ => true

end Machine

end Chip8
