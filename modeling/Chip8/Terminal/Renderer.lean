import Chip8.Screen.Basic
import Chip8.Terminal.Decimal
import Chip8.Terminal.Output
/-!
The screen on a terminal, two columns for a pixel, inside a border and above a status line. Only pixels that
differ from the screen shown before are written again.
-/

namespace Chip8.Terminal

def rightEdge : Nat := 2 * Screen.width + 1

def lowerEdge : Nat := Screen.height + 1

/-- The border's character in a cell, if the cell is part of the border. -/
def borderChar (x y : Nat) : Option Char :=
  if y = 0 then
    if x = 0 then some '┏' else if x = rightEdge then some '┓' else some '━'
  else if y = lowerEdge then
    if x = 0 then some '┗' else if x = rightEdge then some '┛' else some '━'
  else if x = 0 ∨ x = rightEdge then some '┃'
  else none

def border : List Output :=
  (List.range (lowerEdge + 1)).flatMap fun y =>
    (List.range (rightEdge + 1)).flatMap fun x =>
      match borderChar x y with
      | some c => [.moveTo x y, .print (String.singleton c)]
      | none => []

structure Renderer where
  /-- What the terminal shows, once it shows anything. -/
  shown : Option Screen := none
  deriving DecidableEq

namespace Renderer

def stale (r : Renderer) (s : Screen) (x y : Nat) : Bool :=
  match r.shown with
  | some shown => shown.pixel x y != s.pixel x y
  | none => true

def block (lit : Bool) : String := if lit then "██" else "  "

def updates (r : Renderer) (s : Screen) : List Output :=
  (List.range Screen.height).flatMap fun y =>
    (List.range Screen.width).flatMap fun x =>
      if r.stale s x y then [.moveTo (2 * x + 1) (y + 1), .print (block (s.pixel x y))] else []

def alignRight (width : Nat) (text : String) : String :=
  String.ofList (text.toList.leftpad width ' ')

def statusLine (drawCount : Nat) (rate : Float) : String :=
  "frame " ++ alignRight 8 (toString drawCount) ++ "  " ++ alignRight 5 (Decimal.text 1 rate) ++
    " fps  [p] pause  [q] quit"

def render (r : Renderer) (drawCount : Nat) (rate : Float) (s : Screen) : List Output × Renderer :=
  (r.updates s ++ [.moveTo 0 (lowerEdge + 1), .print (statusLine drawCount rate)],
    { r with shown := some s })

end Renderer

end Chip8.Terminal
