/-!
The sixteen keys. Releasing a key also records it, and the record stays until it is cleared.
-/

namespace Chip8

structure Keypad where
  latches : Vector Bool 16 := Vector.replicate 16 false
  lastReleased : Option UInt8 := none
  deriving DecidableEq

namespace Keypad

abbrev size : Nat := 16

def idle : Keypad := {}

def pressed (k : Keypad) (key : UInt8) : Bool :=
  k.latches[key.toNat]?.getD false

/-- Presses or releases a key; there is nothing to do for one that is not on the keypad. -/
def set (k : Keypad) (key : UInt8) (down : Bool) : Keypad :=
  if h : key.toNat < size then
    { latches := k.latches.set key.toNat down h
      lastReleased := if down then k.lastReleased else some key }
  else k

def forget (k : Keypad) : Keypad := { k with lastReleased := none }

theorem pressed_set (k : Keypad) (key other : UInt8) (down : Bool) :
    (k.set key down).pressed other =
      if key = other ∧ key.toNat < size then down else k.pressed other := by
  simp only [set, pressed, ← UInt8.toNat_inj]
  by_cases h : key.toNat < size
  · rw [dif_pos h, Vector.getElem?_set]
    by_cases he : key.toNat = other.toNat
    · rw [if_pos he, if_pos ⟨he, h⟩]
      rfl
    · rw [if_neg he, if_neg fun hb => he hb.1]
  · simp [h]

theorem lastReleased_set (k : Keypad) (key : UInt8) (down : Bool) :
    (k.set key down).lastReleased =
      if key.toNat < size ∧ down = false then some key else k.lastReleased := by
  by_cases h : key.toNat < size <;> cases down <;> simp [set, h]

end Keypad

end Chip8
