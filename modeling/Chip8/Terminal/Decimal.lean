/-!
Decimal text of floating-point numbers with a fixed number of places. The number is taken apart exactly and
rounded once, to the nearest decimal, where a tie goes to the even one.
-/

namespace Chip8.Terminal.Decimal

/-- The quotient rounded to the nearest natural number, a tie to the even one. -/
def roundDiv (num den : Nat) : Nat :=
  let q := num / den
  let twice := 2 * (num % den)
  if twice < den ∨ (twice = den ∧ q % 2 = 0) then q else q + 1

structure Parts where
  negative : Bool
  exponent : Nat
  fraction : Nat

def Parts.ofBits (bits : UInt64) : Parts where
  negative := bits.toNat / Nat.pow 2 63 = 1
  exponent := bits.toNat / Nat.pow 2 52 % Nat.pow 2 11
  fraction := bits.toNat % Nat.pow 2 52

/-- The integral significand of a finite double; a normal one has a hidden bit. -/
def Parts.significand (p : Parts) : Nat :=
  if p.exponent = 0 then p.fraction else Nat.pow 2 52 + p.fraction

/-- The magnitude of a finite double in units of `10 ^ -places`, rounded. -/
def Parts.scaled (p : Parts) (places : Nat) : Nat :=
  let exponent := max p.exponent 1
  roundDiv (p.significand * Nat.pow 10 places * Nat.pow 2 (exponent - 1075)) (Nat.pow 2 (1075 - exponent))

/-- The digits of a number of units of `10 ^ -places`, with a point in front of the last `places` of them. -/
def point (places units : Nat) : String :=
  let whole := toString (units / Nat.pow 10 places)
  if places = 0 then whole
  else whole ++ "." ++ String.ofList ((Nat.toDigits 10 (units % Nat.pow 10 places)).leftpad places '0')

def text (places : Nat) (x : Float) : String :=
  let p := Parts.ofBits x.toBits
  if p.exponent = 2047 then
    if p.fraction ≠ 0 then "NaN" else if p.negative then "-inf" else "inf"
  else (if p.negative then "-" else "") ++ point places (p.scaled places)

end Chip8.Terminal.Decimal
