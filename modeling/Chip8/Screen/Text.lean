import Chip8.Screen.Basic
/-!
The screen as text: a line for each row, with `#` for a lit pixel and a space for a dark one.
-/

namespace Chip8.Screen

def line (row : BitVec 64) : String :=
  String.ofList ((List.range width).map fun x => if row.getMsbD x then '#' else ' ')

def text (s : Screen) : String :=
  String.join (s.rows.toList.map fun row => line row ++ "\n")

theorem line_zero : line 0 = String.ofList (List.replicate width ' ') := by
  simp [line, List.map_const']

theorem text_blank :
    blank.text = String.join (List.replicate height (String.ofList (List.replicate width ' ') ++ "\n")) := by
  rw [text, blank, Vector.toList_replicate, List.map_replicate, line_zero, height]

/-- The text in braces, as a diagnostic shows a screen. -/
def inspect (s : Screen) : String :=
  "Display \x7b\n" ++ s.text ++ "\x7d"

end Chip8.Screen
