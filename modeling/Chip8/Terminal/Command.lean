import Chip8.Terminal.KeyBuffer
/-!
Key events and the commands that they stand for. A hexadecimal digit is a key of the keypad, and holding it
down gives a single press.
-/

namespace Chip8.Terminal

inductive Command where
  | press (key : UInt8)
  | release (key : UInt8)
  | togglePause
  | quit
  deriving DecidableEq, Repr

inductive KeyCode where
  | char (c : Char)
  | escape
  | other
  deriving DecidableEq, Repr

structure KeyEvent where
  code : KeyCode
  control : Bool := false
  deriving DecidableEq, Repr

def hexDigit? (c : Char) : Option UInt8 :=
  if '0' ≤ c ∧ c ≤ '9' then some (UInt8.ofNat (c.toNat - '0'.toNat))
  else if 'a' ≤ c ∧ c ≤ 'f' then some (UInt8.ofNat (c.toNat - 'a'.toNat + 10))
  else if 'A' ≤ c ∧ c ≤ 'F' then some (UInt8.ofNat (c.toNat - 'A'.toNat + 10))
  else none

/-- What a key event asks for, were no key held. -/
def KeyEvent.binding (e : KeyEvent) : Option Command :=
  match e.code with
  | .char c =>
    if c = 'c' ∧ e.control then some .quit
    else if c = 'q' then some .quit
    else if c = 'p' then some .togglePause
    else (hexDigit? c).map .press
  | .escape => some .quit
  | .other => none

def KeyBuffer.command (b : KeyBuffer) (e : KeyEvent) (now : Nat) : Option Command × KeyBuffer :=
  match e.binding with
  | some (.press key) =>
    let pressed := b.press key now
    (if pressed.1 then some (.press key) else none, pressed.2)
  | command => (command, b)

def KeyBuffer.releases (b : KeyBuffer) (now : Nat) : List Command × KeyBuffer :=
  let expired := b.expire now
  (expired.1.map .release, expired.2)

end Chip8.Terminal
