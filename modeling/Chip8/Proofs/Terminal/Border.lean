import Chip8.Proofs.Terminal.Grid
import Chip8.Terminal.Renderer
import Mathlib.Data.List.Nodup
import Mathlib.Data.List.ProdSigma
import Mathlib.Data.Prod.Basic
import Mathlib.Tactic.SplitIfs

/-! The border on a terminal. It stands once it has been drawn, and stays as long as nothing is written on it. -/

namespace Chip8.Terminal

/-- Columns and rows, row by row. -/
def positions (width height : Nat) : List (Nat × Nat) := (List.range height ×ˢ List.range width).map Prod.swap

lemma mem_positions {width height : Nat} {p : Nat × Nat} :
    p ∈ positions width height ↔ p.1 < width ∧ p.2 < height := by
  rw [positions, ← Prod.swap_swap p, List.mem_map_of_injective Prod.swap_injective]
  exact List.pair_mem_product.trans ((and_congr List.mem_range List.mem_range).trans and_comm)

lemma nodup_positions (width height : Nat) : (positions width height).Nodup :=
  (List.nodup_range.product List.nodup_range).map Prod.swap_injective

lemma length_positions (width height : Nat) : (positions width height).length = height * width := by
  rw [positions, List.length_map, List.length_product, List.length_range, List.length_range]

lemma flatMap_positions {α : Type} (f : Nat × Nat → List α) (width height : Nat) :
    (positions width height).flatMap f =
      (List.range height).flatMap fun y => (List.range width).flatMap fun x => f (x, y) := by
  rw [positions, List.flatMap_map]
  exact List.flatMap_assoc.trans (congrArg (List.range height).flatMap (funext fun y => List.flatMap_map ..))

def Grid.HoldsBorderAt (g : Grid) (p : Nat × Nat) : Prop :=
  ∀ c, borderChar p.1 p.2 = some c → g.char ⟨p.1, p.2⟩ = c

def Grid.HoldsBorder (g : Grid) : Prop := ∀ x ≤ rightEdge, ∀ y ≤ lowerEdge, g.HoldsBorderAt (x, y)

def Cell.OnBorder (cell : Cell) : Prop :=
  cell.row ≤ lowerEdge ∧ (cell.row = 0 ∨ cell.row = lowerEdge ∨ cell.column = 0 ∨ cell.column = rightEdge)

lemma onBorder_of_borderChar {x y : Nat} {c : Char} (hy : y ≤ lowerEdge) (h : borderChar x y = some c) :
    Cell.OnBorder ⟨x, y⟩ := by
  refine ⟨hy, ?_⟩
  unfold borderChar at h
  split_ifs at h <;> simp_all

lemma Grid.HoldsBorder.feedAll {g : Grid} {out : List Output} (h : g.HoldsBorder)
    (ho : ∀ cell ∈ g.written out, ¬ cell.OnBorder) : (g.feedAll out).HoldsBorder := by
  intro x hx y hy c hc
  rw [char_feedAll fun hm => ho _ hm (onBorder_of_borderChar hy hc)]
  exact h x hx y hy c hc

def borderCell (p : Nat × Nat) : List Output :=
  match borderChar p.1 p.2 with
  | some c => [.moveTo p.1 p.2, .print (String.singleton c)]
  | none => []

lemma border_eq : border = (positions (rightEdge + 1) (lowerEdge + 1)).flatMap borderCell := by
  rw [border, flatMap_positions]
  rfl

lemma borderChar_ne_bell {x y : Nat} {c : Char} (h : borderChar x y = some c) : c ≠ '\x07' := by
  unfold borderChar at h
  split_ifs at h <;> cases h <;> decide

lemma char_borderCell {p : Nat × Nat} {c : Char} (h : borderChar p.1 p.2 = some c) (g : Grid) :
    (g.feedAll (borderCell p)).char = Function.update g.char ⟨p.1, p.2⟩ c := by
  simp [borderCell, h, Grid.feedAll, Grid.feed, Grid.putAll, Grid.put, borderChar_ne_bell h]

/-- A terminal on which the border has been drawn, whatever it has held before. -/
lemma holdsBorder_border (g : Grid) : (g.feedAll border).HoldsBorder := by
  intro x hx y hy
  rw [border_eq]
  refine Grid.feedAll_flatMap (P := fun p k => k.HoldsBorderAt p) ?_ ?_
    (Or.inl (mem_positions.2 ⟨Nat.lt_succ_of_le hx, Nat.lt_succ_of_le hy⟩))
  · intro p k c hc
    rw [char_borderCell hc, Function.update_self]
  · intro p q k hp c hc
    cases hq : borderChar q.1 q.2 with
    | none =>
      have hb : borderCell q = [] := by rw [borderCell, hq]
      rw [hb]
      exact hp c hc
    | some d =>
      rw [char_borderCell hq]
      by_cases hpq : p = q
      · subst hpq
        rw [Function.update_self]
        exact Option.some.inj (hq.symm.trans hc)
      · rw [Function.update_of_ne fun he => hpq (Prod.ext (congrArg Cell.column he) (congrArg Cell.row he))]
        exact hp c hc

end Chip8.Terminal
