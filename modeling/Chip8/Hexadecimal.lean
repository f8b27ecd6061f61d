/-!
Hexadecimal text of natural numbers, as diagnostics show addresses and opcodes.
-/

namespace Chip8.Hexadecimal

/-- The upper-case digits of a number, most significant first. -/
def digits (n : Nat) : List Char :=
  (Nat.toDigits 16 n).map Char.toUpper

/-- A number behind `0x`, filled up with zeros to at least `width` digits. -/
def text (width n : Nat) : String :=
  "0x" ++ String.ofList ((digits n).leftpad width '0')

end Chip8.Hexadecimal
