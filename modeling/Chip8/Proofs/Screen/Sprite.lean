import Chip8.Screen.Basic
import Mathlib.Algebra.BigOperators.Group.Finset.Sigma
import Mathlib.Algebra.BigOperators.Ring.Finset
import Mathlib.Tactic.ByContra
import Mathlib.Tactic.Lemma

/-! What a sprite does to the screen, pixel by pixel: it turns over the pixels that it covers, and those that were lit
before make the collision. -/

namespace Chip8.Screen

open Finset

lemma ext_pixel {s t : Screen} (h : ∀ px < width, ∀ py < height, t.pixel px py = s.pixel px py) : t = s := by
  obtain ⟨v⟩ := s
  obtain ⟨w⟩ := t
  congr 1
  apply Vector.ext
  intro py hy
  apply BitVec.eq_of_getMsbD_eq
  intro px hx
  simpa [pixel, hy] using h px hx py hy

/-- Whether a sprite has a set bit over a pixel. Its corner wraps around the screen, the sprite itself does not. -/
def Covers (x y : UInt8) (sprite : List UInt8) (px py : Nat) : Prop :=
  y.toNat % height ≤ py ∧ py < y.toNat % height + sprite.length ∧
    x.toNat % width ≤ px ∧ px < x.toNat % width + 8 ∧
      (sprite.getD (py - y.toNat % height) 0).toNat.testBit (7 - (px - x.toNat % width)) = true

instance (x y : UInt8) (sprite : List UInt8) (px py : Nat) : Decidable (Covers x y sprite px py) :=
  inferInstanceAs (Decidable (_ ∧ _))

variable (s t : Screen) (x y : UInt8) (sprite : List UInt8)

lemma getMsbD_spread (left : Nat) (b : UInt8) {px : Nat} (hx : px < width) :
    (spread left b).getMsbD px =
      (decide (left ≤ px) && (decide (px < left + 8) && b.toNat.testBit (7 - (px - left)))) := by
  have hw : px < 64 := hx
  simp only [spread, BitVec.getMsbD_ushiftRight, BitVec.getMsbD_append, hw, decide_true, Bool.true_and]
  by_cases hl : left ≤ px
  · by_cases hr : px < left + 8
    · have hb : px - left < 8 := by omega
      simp [hl, hr, hb, Nat.not_le.2 hb, BitVec.getMsbD, BitVec.getLsbD]
    · have hb : 8 ≤ px - left := by omega
      simp [hr, hb, BitVec.getMsbD]
  · simp [hl, Nat.not_le.1 hl]

variable {px py : Nat}

@[simp] lemma pixel_stamp (hx : px < width) (hy : py < height) :
    (stamp x y sprite).pixel px py = decide (Covers x y sprite px py) := by
  have hh : py < 32 := hy
  simp only [pixel, stamp, Vector.getElem?_ofFn, hh, dif_pos, Option.getD_some]
  by_cases ht : y.toNat % height ≤ py
  · rw [if_neg (Nat.not_lt.2 ht), getMsbD_spread _ _ hx]
    by_cases hb : py < y.toNat % height + sprite.length
    · simp [Covers, ht, hb]
    · have hl : sprite.length ≤ py - y.toNat % height := by omega
      simp [Covers, hb, hl]
  · simp [ht, Nat.not_le.1 ht, Covers]

lemma pixel_draw (hx : px < width) (hy : py < height) :
    (s.draw x y sprite).1.pixel px py = (s.pixel px py ^^ decide (Covers x y sprite px py)) := by
  simp [draw, hx, hy]

lemma draw_collides_iff :
    (s.draw x y sprite).2 = true ↔
      ∃ px < width, ∃ py < height, Covers x y sprite px py ∧ s.pixel px py = true := by
  simp only [draw, bne_iff_ne]
  constructor
  · intro hn
    by_contra hc
    refine hn (ext_pixel fun px hx py hy => ?_)
    have hp : ¬ (Covers x y sprite px py ∧ s.pixel px py = true) := fun hp => hc ⟨px, hx, py, hy, hp⟩
    rw [pixel_and, pixel_stamp x y sprite hx hy, pixel_blank]
    by_cases hcov : Covers x y sprite px py <;> simp_all
  · rintro ⟨px, hx, py, hy, hcov, hlit⟩ he
    have hp := congrArg (pixel · px py) he
    simp [hx, hy, hcov, hlit] at hp

variable {x y sprite}

lemma not_covers (px : Nat) (h : sprite.getD (py - y.toNat % height) 0 = 0) : ¬ Covers x y sprite px py := by
  rintro ⟨-, -, -, -, hb⟩
  rw [h] at hb
  simp at hb

lemma pixel_draw_of_empty (px : Nat) (h : sprite.getD (py - y.toNat % height) 0 = 0) :
    (s.draw x y sprite).1.pixel px py = s.pixel px py := by
  by_cases hx : px < width
  · by_cases hy : py < height
    · rw [pixel_draw s x y sprite hx hy, decide_eq_false (not_covers px h), Bool.xor_false]
    · rw [pixel_of_height_le _ _ (Nat.not_lt.1 hy), pixel_of_height_le _ _ (Nat.not_lt.1 hy)]
  · rw [pixel_of_width_le _ _ (Nat.not_lt.1 hx), pixel_of_width_le _ _ (Nat.not_lt.1 hx)]

lemma draw_of_empty (h : ∀ row, sprite.getD row 0 = 0) : s.draw x y sprite = (s, false) := by
  refine Prod.ext (ext_pixel fun px _ py _ => pixel_draw_of_empty s px (h _)) (Bool.eq_false_iff.2 fun hc => ?_)
  obtain ⟨px, -, py, -, hcov, -⟩ := (draw_collides_iff s x y sprite).1 hc
  exact not_covers px (h _) hcov

variable (x y sprite)

/-- The coordinates in a rectangle. -/
@[irreducible] def grid (columns rows : Nat) : Finset (Nat × Nat) := range columns ×ˢ range rows

lemma mem_grid {columns rows : Nat} {p : Nat × Nat} : p ∈ grid columns rows ↔ p.1 < columns ∧ p.2 < rows := by
  rw [grid, mem_product, mem_range, mem_range]

lemma sum_grid (columns rows : Nat) (f : Nat × Nat → Nat) :
    ∑ p ∈ grid columns rows, f p = ∑ py ∈ range rows, ∑ px ∈ range columns, f (px, py) := by
  rw [grid, sum_product_right]

lemma countP_range (p : Nat → Bool) (n : Nat) : (List.range n).countP p = #{k ∈ range n | p k = true} := by
  induction n with
  | zero => rfl
  | succ n ih =>
    rw [List.range_succ, List.countP_append, ih, range_add_one, filter_insert]
    cases hp : p n <;> simp [hp]

lemma foldl_add_eq_sum {α : Type} (f : α → Nat) (default : α) (as : List α) (n : Nat) :
    as.foldl (fun n a => n + f a) n = n + ∑ k ∈ range as.length, f (as.getD k default) := by
  induction as generalizing n with
  | nil => simp
  | cons a as ih =>
    rw [List.foldl_cons, ih, List.length_cons, sum_range_succ']
    simp [Nat.add_assoc, Nat.add_comm]

lemma litCount_eq_card : s.litCount = #{p ∈ grid width height | s.pixel p.1 p.2 = true} := by
  rw [litCount, foldl_add_eq_sum _ 0, card_filter, sum_grid, Nat.zero_add, Vector.length_toList]
  refine sum_congr rfl fun py _ => ?_
  rw [rowCount, countP_range, card_filter]
  simp only [pixel, List.getD_eq_getElem?_getD, Vector.getElem?_toList]
  rfl

lemma litCount_draw :
    (s.draw x y sprite).1.litCount +
        2 * #{p ∈ grid width height | Covers x y sprite p.1 p.2 ∧ s.pixel p.1 p.2 = true} =
      s.litCount + #{p ∈ grid width height | Covers x y sprite p.1 p.2} := by
  simp only [litCount_eq_card, card_filter, mul_sum, ← sum_add_distrib]
  refine sum_congr rfl fun p hp => ?_
  have hm := mem_grid.1 hp
  rw [pixel_draw s x y sprite hm.1 hm.2]
  cases s.pixel p.1 p.2 <;> by_cases hc : Covers x y sprite p.1 p.2 <;> simp [hc]

end Chip8.Screen
