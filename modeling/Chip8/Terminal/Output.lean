/-!
What is written to a terminal: cursor moves and printed text, with columns and rows counted from zero.
-/

namespace Chip8.Terminal

inductive Output where
  | moveTo (column row : Nat)
  | print (text : String)
  deriving DecidableEq, Repr

namespace Output

def bell : Output := print "\x07"

/-- The control sequence for a cursor move, which counts from one, or the text itself. -/
def encode : Output → String
  | moveTo column row => "\x1b[" ++ toString (row + 1) ++ ";" ++ toString (column + 1) ++ "H"
  | print text => text

def encodeAll (out : List Output) : String := String.join (out.map encode)

end Output

end Chip8.Terminal
