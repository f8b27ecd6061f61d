import Chip8.Proofs.Terminal.Border

/-! Drawing only what has changed leaves the same pixels on a terminal as drawing all of the screen would. -/

namespace Chip8.Terminal

lemma flatMap_filter {α β : Type} (f : α → List β) (q : α → Bool) (as : List α) :
    (as.filter q).flatMap f = as.flatMap fun a => if q a then f a else [] := by
  induction as with
  | nil => rfl
  | cons a as ih =>
    rw [List.flatMap_cons, ← ih, List.filter_cons]
    split
    · exact List.flatMap_cons
    · rfl

def shade (lit : Bool) : Char := if lit then '█' else ' '

lemma shade_ne_bell (lit : Bool) : shade lit ≠ '\x07' := by cases lit <;> decide

/-- A pixel takes two cells, to the right of the border and below it. -/
def pixelCells (p : Nat × Nat) : List Cell := [⟨2 * p.1 + 1, p.2 + 1⟩, ⟨2 * p.1 + 2, p.2 + 1⟩]

lemma mem_pixelCells {cell : Cell} {p : Nat × Nat} :
    cell ∈ pixelCells p ↔
      (cell.column = 2 * p.1 + 1 ∨ cell.column = 2 * p.1 + 2) ∧ cell.row = p.2 + 1 := by
  simp [pixelCells, Cell.ext_iff, ← or_and_right]

lemma eq_of_mem_pixelCells {cell : Cell} {p q : Nat × Nat} (hp : cell ∈ pixelCells p) (hq : cell ∈ pixelCells q) :
    p = q := by
  rw [mem_pixelCells] at hp hq
  apply Prod.ext <;> omega

lemma bounds_of_mem_pixelCells {cell : Cell} {p : Nat × Nat} (h : cell ∈ pixelCells p)
    (hp : p ∈ positions Screen.width Screen.height) :
    (0 < cell.column ∧ cell.column < rightEdge) ∧ 0 < cell.row ∧ cell.row < lowerEdge := by
  rw [mem_pixelCells] at h
  rw [mem_positions] at hp
  unfold rightEdge lowerEdge
  omega

namespace Grid

variable {g : Grid} {s : Screen} {p : Nat × Nat}

def Shows (g : Grid) (s : Screen) (p : Nat × Nat) : Prop :=
  ∀ cell ∈ pixelCells p, g.char cell = shade (s.pixel p.1 p.2)

lemma Shows.feedAll {out : List Output} (h : g.Shows s p) (ho : ∀ cell ∈ pixelCells p, cell ∉ g.written out) :
    (g.feedAll out).Shows s p :=
  fun cell hc => (char_feedAll (ho cell hc)).trans (h cell hc)

lemma Shows.congr {t : Screen} (h : g.Shows s p) (he : s.pixel p.1 p.2 = t.pixel p.1 p.2) : g.Shows t p :=
  fun cell hc => he ▸ h cell hc

end Grid

namespace Renderer

variable {r : Renderer} {g : Grid} {s : Screen} {cell : Cell} {p : Nat × Nat}

def repaint (s : Screen) (p : Nat × Nat) : List Output :=
  [.moveTo (2 * p.1 + 1) (p.2 + 1), .print (block (s.pixel p.1 p.2))]

def footer (drawCount : Nat) (rate : Float) : List Output :=
  [.moveTo 0 (lowerEdge + 1), .print (statusLine drawCount rate)]

lemma toList_block (lit : Bool) : (block lit).toList = [shade lit, shade lit] := by cases lit <;> rfl

lemma written_repaint (g : Grid) (s : Screen) (p : Nat × Nat) : g.written (repaint s p) = pixelCells p := by
  simp [repaint, Grid.written, Grid.filled, Grid.feed, Grid.put, toList_block, shade_ne_bell, pixelCells]

lemma repaint_shows (g : Grid) (s : Screen) (p : Nat × Nat) : (g.feedAll (repaint s p)).Shows s p := by
  simp [Grid.Shows, pixelCells, repaint, Grid.feedAll, Grid.feed, Grid.putAll, Grid.put, toList_block, shade_ne_bell]

lemma repaint_keeps_shown (h : g.Shows s p) (q : Nat × Nat) : (g.feedAll (repaint s q)).Shows s p := by
  by_cases hpq : p = q
  · exact hpq ▸ repaint_shows g s p
  · refine h.feedAll fun cell hc hm => hpq (eq_of_mem_pixelCells hc ?_)
    rwa [written_repaint] at hm

def changed (r : Renderer) (s : Screen) : List (Nat × Nat) :=
  (positions Screen.width Screen.height).filter fun p => r.stale s p.1 p.2

lemma updates_eq (r : Renderer) (s : Screen) : r.updates s = (r.changed s).flatMap (repaint s) := by
  rw [changed, flatMap_filter, flatMap_positions]
  rfl

lemma mem_changed : p ∈ r.changed s ↔ p.1 < Screen.width ∧ p.2 < Screen.height ∧
    ∀ old, r.shown = some old → old.pixel p.1 p.2 ≠ s.pixel p.1 p.2 := by
  rw [changed, List.mem_filter, mem_positions, stale, and_assoc]
  cases r.shown <;> simp

lemma changed_of_fresh (h : r.shown = none) : r.changed s = positions Screen.width Screen.height := by
  rw [changed, List.filter_eq_self]
  intro p _
  rw [stale, h]

inductive Call where
  | draw (drawCount : Nat) (rate : Float) (s : Screen)
  | playSound

def Call.screen : Call → Option Screen
  | .draw _ _ s => some s
  | .playSound => none

def respond (r : Renderer) : Call → List Output × Renderer
  | .draw drawCount rate s => r.render drawCount rate s
  | .playSound => ([.bell], r)

def after (r : Renderer) (cs : List Call) : Renderer := cs.foldl (fun r c => (r.respond c).2) r

def outputs (r : Renderer) : List Call → List Output
  | [] => []
  | c :: cs => (r.respond c).1 ++ outputs (r.respond c).2 cs

def latest (cs : List Call) : Option Screen := (cs.filterMap Call.screen).getLast?

lemma shown_after (r : Renderer) (cs : List Call) : (r.after cs).shown = (latest cs).or r.shown := by
  induction cs generalizing r with
  | nil => rfl
  | cons c cs ih =>
    refine (ih _).trans ?_
    cases c with
    | playSound => rfl
    | draw drawCount rate s =>
      have hs : (Call.draw drawCount rate s).screen = some s := rfl
      rw [latest, latest, List.filterMap_cons_some hs, List.getLast?_cons]
      cases (cs.filterMap Call.screen).getLast? <;> rfl

def Mirrors (r : Renderer) (g : Grid) : Prop :=
  ∀ s, r.shown = some s → ∀ p ∈ positions Screen.width Screen.height, g.Shows s p

lemma not_onBorder {c : Call} (h : cell ∈ g.written (r.respond c).1) : ¬ cell.OnBorder := by
  cases c with
  | playSound =>
    rw [respond, Grid.written_bell] at h
    cases h
  | draw drawCount rate s =>
    rw [respond, render, Grid.written_append] at h
    rcases List.mem_append.1 h with h | h
    · rw [updates_eq] at h
      obtain ⟨p, hp, k, hk⟩ := Grid.mem_written_flatMap h
      rw [written_repaint] at hk
      have hb := bounds_of_mem_pixelCells hk (List.mem_filter.1 hp).1
      unfold Cell.OnBorder
      omega
    · have hr := Grid.row_of_written_line h
      unfold Cell.OnBorder
      omega

lemma Mirrors.respond (h : r.Mirrors g) (c : Call) : (r.respond c).2.Mirrors (g.feedAll (r.respond c).1) := by
  cases c with
  | playSound =>
    intro s hs p hp
    refine (h s hs p hp).feedAll fun cell _ hm => ?_
    rw [Renderer.respond, Grid.written_bell] at hm
    cases hm
  | draw drawCount rate s =>
    intro t ht p hp
    obtain rfl := Option.some.inj ht
    rw [Renderer.respond, render, Grid.feedAll_append, updates_eq]
    refine Grid.Shows.feedAll ?_ fun cell hc hm => ?_
    · refine Grid.feedAll_flatMap (P := fun p k => k.Shows s p) (fun q k => repaint_shows k s q)
        (fun p q k hs => repaint_keeps_shown hs q) (or_iff_not_imp_left.2 fun hc => ?_)
      -- A pixel that is not written again is the same in the screen that is shown already.
      have hne : ∃ old, r.shown = some old ∧ old.pixel p.1 p.2 = s.pixel p.1 p.2 := by
        rw [mem_positions] at hp
        simpa [mem_changed, hp] using hc
      obtain ⟨old, hold, he⟩ := hne
      exact (h old hold p hp).congr he
    · have hr := Grid.row_of_written_line hm
      have hb := bounds_of_mem_pixelCells hc hp
      omega

lemma mirrors_after (h : r.Mirrors g) (cs : List Call) : (r.after cs).Mirrors (g.feedAll (r.outputs cs)) := by
  induction cs generalizing r g with
  | nil => exact h
  | cons c cs ih =>
    rw [outputs, Grid.feedAll_append]
    exact ih (h.respond c)

lemma not_onBorder_of_outputs {cs : List Call} (h : cell ∈ g.written (r.outputs cs)) : ¬ cell.OnBorder := by
  induction cs generalizing r g with
  | nil => cases h
  | cons c cs ih =>
    rw [outputs, Grid.written_append] at h
    exact (List.mem_append.1 h).elim not_onBorder ih

theorem redraw_incremental (hg : g.HoldsBorder) (cs : List Call) :
    let t := g.feedAll (outputs {} cs)
    (∀ s, latest cs = some s → ∀ x < Screen.width, ∀ y < Screen.height, t.Shows s (x, y)) ∧
      t.HoldsBorder ∧ (∀ cell ∈ g.written (outputs {} cs), ¬ cell.OnBorder) ∧
      ∀ drawCount rate s, ∃ ps : List (Nat × Nat),
        ((after {} cs).respond (.draw drawCount rate s)).1 = ps.flatMap (repaint s) ++ footer drawCount rate ∧
          (∀ k : Grid, ∀ cell ∈ k.written (footer drawCount rate), cell.row = 34) ∧ ps.Nodup ∧
          (∀ x y, (x, y) ∈ ps ↔ x < Screen.width ∧ y < Screen.height ∧
            ∀ old, latest cs = some old → old.pixel x y ≠ s.pixel x y) ∧
          (latest cs = none → ps.length = 2048) := by
  intro t
  have hshown : (after {} cs).shown = latest cs := (shown_after {} cs).trans (Option.or_none ..)
  have hm : (after {} cs).Mirrors t := mirrors_after (fun _ hs => by cases hs) cs
  have hb : ∀ cell ∈ g.written (outputs {} cs), ¬ cell.OnBorder := fun _ => not_onBorder_of_outputs
  refine ⟨fun s hs x hx y hy => hm s (hshown.trans hs) (x, y) (mem_positions.2 ⟨hx, hy⟩), hg.feedAll hb, hb, ?_⟩
  intro drawCount rate s
  refine ⟨(after {} cs).changed s, ?_, fun _ _ => Grid.row_of_written_line, (nodup_positions ..).filter _, ?_, ?_⟩
  · rw [respond, render, updates_eq]
    rfl
  · intro x y
    rw [← hshown]
    exact mem_changed
  · intro hn
    rw [changed_of_fresh (hshown.trans hn), length_positions]
    rfl

theorem redraw_incremental_unchanged :
    let g := Grid.feedAll ⟨fun _ => ' ', ⟨0, 0⟩⟩ border
    let s := (Screen.blank.draw 60 30 [0xFF, 0xFF]).1
    let cs : List Call := [.draw 0 0 s, .playSound]
    g.HoldsBorder ∧ (g.feedAll (outputs {} cs)).char ⟨128, 32⟩ = '█' ∧
      ((after {} cs).respond (.draw 1 30 s)).1 = footer 1 30 := by
  intro g s cs
  have hg : g.HoldsBorder := holdsBorder_border _
  obtain ⟨hshows, -, -, hnext⟩ := redraw_incremental hg cs
  obtain ⟨ps, hout, -, -, hps, -⟩ := hnext 1 30 s
  have hnil : ps = [] := List.eq_nil_iff_forall_not_mem.2 fun p hp => ((hps p.1 p.2).1 hp).2.2 s rfl rfl
  refine ⟨hg, ?_, hout.trans (by rw [hnil]; rfl)⟩
  have hlit : s.pixel 63 31 = true := by decide +kernel
  rw [hshows s rfl 63 (by decide) 31 (by decide) ⟨128, 32⟩ (by decide), hlit]
  rfl

end Renderer

end Chip8.Terminal
