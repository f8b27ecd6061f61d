import Chip8.Terminal.Output
import Mathlib.Logic.Function.Basic
import Mathlib.Tactic.Lemma

/-! A terminal as a grid of cells that hold a character each, with a cursor that moves one column to the right behind
every character. -/

namespace Chip8.Terminal

@[ext]
structure Cell where
  column : Nat
  row : Nat
  deriving DecidableEq

structure Grid where
  char : Cell → Char
  cursor : Cell

namespace Grid

/-- U+0007 rings the bell and is not shown. -/
def put (g : Grid) (c : Char) : Grid :=
  if c = '\x07' then g
  else { char := Function.update g.char g.cursor c, cursor := ⟨g.cursor.column + 1, g.cursor.row⟩ }

def putAll (g : Grid) (cs : List Char) : Grid := cs.foldl put g

def feed (g : Grid) : Output → Grid
  | .moveTo column row => { g with cursor := ⟨column, row⟩ }
  | .print text => g.putAll text.toList

def feedAll (g : Grid) (out : List Output) : Grid := out.foldl feed g

/-- The cells that characters are put into. -/
def filled (g : Grid) : List Char → List Cell
  | [] => []
  | c :: cs => (if c = '\x07' then [] else [g.cursor]) ++ filled (g.put c) cs

/-- The cells that are written, as often as they are. -/
def written (g : Grid) : List Output → List Cell
  | [] => []
  | .moveTo column row :: out => written (g.feed (.moveTo column row)) out
  | .print text :: out => g.filled text.toList ++ written (g.feed (.print text)) out

variable {g : Grid} {cell : Cell} {α : Type}

lemma put_row (g : Grid) (c : Char) : (g.put c).cursor.row = g.cursor.row := by
  rw [put]
  split <;> rfl

lemma row_of_filled {cs : List Char} (h : cell ∈ g.filled cs) : cell.row = g.cursor.row := by
  induction cs generalizing g with
  | nil => cases h
  | cons c cs ih =>
    rcases List.mem_append.1 h with h | h
    · split at h
      · cases h
      · rw [List.mem_singleton.1 h]
    · rw [ih h, put_row]

lemma char_putAll {cs : List Char} (h : cell ∉ g.filled cs) : (g.putAll cs).char cell = g.char cell := by
  induction cs generalizing g with
  | nil => rfl
  | cons c cs ih =>
    obtain ⟨hc, hcs⟩ := not_or.1 (mt List.mem_append.2 h)
    refine (ih hcs).trans ?_
    rw [put]
    split at hc
    · rw [if_pos ‹_›]
    · rw [if_neg ‹_›]
      exact Function.update_of_ne (fun he => hc (List.mem_singleton.2 he)) _ _

lemma feedAll_append (g : Grid) (as bs : List Output) : g.feedAll (as ++ bs) = (g.feedAll as).feedAll bs :=
  List.foldl_append

lemma written_append (g : Grid) (as bs : List Output) :
    g.written (as ++ bs) = g.written as ++ (g.feedAll as).written bs := by
  induction as generalizing g with
  | nil => rfl
  | cons a as ih =>
    cases a with
    | moveTo column row => exact ih _
    | print text =>
      rw [List.cons_append, written, ih, written, List.append_assoc]
      rfl

lemma char_feedAll {out : List Output} (h : cell ∉ g.written out) : (g.feedAll out).char cell = g.char cell := by
  induction out generalizing g with
  | nil => rfl
  | cons a out ih =>
    cases a with
    | moveTo column row => exact ih h
    | print text =>
      obtain ⟨htext, hout⟩ := not_or.1 (mt List.mem_append.2 h)
      exact (ih hout).trans (char_putAll htext)

lemma row_of_written_line {column row : Nat} {text : String}
    (h : cell ∈ g.written [.moveTo column row, .print text]) : cell.row = row := by
  rw [written, written, written, List.append_nil] at h
  exact row_of_filled h

lemma written_bell (g : Grid) : g.written [.bell] = [] := by
  rw [Output.bell, written, written, List.append_nil]
  rfl

lemma mem_written_flatMap {f : α → List Output} {as : List α} (h : cell ∈ g.written (as.flatMap f)) :
    ∃ a ∈ as, ∃ k : Grid, cell ∈ k.written (f a) := by
  induction as generalizing g with
  | nil => cases h
  | cons a as ih =>
    rw [List.flatMap_cons, written_append] at h
    rcases List.mem_append.1 h with h | h
    · exact ⟨a, List.mem_cons_self, g, h⟩
    · obtain ⟨b, hb, k, hk⟩ := ih h
      exact ⟨b, List.mem_cons_of_mem a hb, k, hk⟩

/-- What a part of some output establishes and no part destroys holds in the end. -/
lemma feedAll_flatMap {f : α → List Output} {P : α → Grid → Prop} (own : ∀ a (k : Grid), P a (k.feedAll (f a)))
    (keep : ∀ a b (k : Grid), P a k → P a (k.feedAll (f b))) {as : List α} {a : α} (h : a ∈ as ∨ P a g) :
    P a (g.feedAll (as.flatMap f)) := by
  induction as generalizing g with
  | nil => exact h.resolve_left List.not_mem_nil
  | cons b as ih =>
    rw [List.flatMap_cons, feedAll_append]
    apply ih
    rcases h with h | h
    · rcases List.mem_cons.1 h with rfl | h
      · exact Or.inr (own a g)
      · exact Or.inl h
    · exact Or.inr (keep a b g h)

end Grid

end Chip8.Terminal
