import Chip8.Proofs.Screen.Sprite
import Mathlib.Algebra.BigOperators.Group.Finset.Lemmas
import Mathlib.Algebra.Group.Nat.Even

/-! Sprites one over the other. What many draws leave behind depends, pixel by pixel, on how many of them cover it, so
that their order does not matter and two that are the same take each other back. -/

namespace Chip8.Screen

/-- A sprite and where to draw it. -/
structure Placement where
  x : UInt8
  y : UInt8
  sprite : List UInt8
  deriving DecidableEq

def Placement.covers (p : Placement) (px py : Nat) : Bool := decide (Covers p.x p.y p.sprite px py)

def place (s : Screen) (p : Placement) : Screen := (s.draw p.x p.y p.sprite).1

def placeAll (s : Screen) (ps : List Placement) : Screen := ps.foldl place s

variable (s : Screen) {ps qs : List Placement} {px py : Nat}

lemma pixel_place (p : Placement) (hx : px < width) (hy : py < height) :
    (s.place p).pixel px py = (s.pixel px py ^^ p.covers px py) :=
  pixel_draw s p.x p.y p.sprite hx hy

lemma pixel_placeAll (ps : List Placement) (hx : px < width) (hy : py < height) :
    (s.placeAll ps).pixel px py = (s.pixel px py ^^ decide (Odd (ps.countP (·.covers px py)))) := by
  induction ps generalizing s with
  | nil => simp [placeAll]
  | cons p ps ih =>
    have hp : (s.placeAll (p :: ps)).pixel px py = ((s.place p).placeAll ps).pixel px py := rfl
    rw [hp, ih, pixel_place s p hx hy, List.countP_cons]
    cases p.covers px py with
    | false => simp
    | true =>
      simp only [if_true, Nat.odd_add_one, decide_not]
      cases s.pixel px py <;> simp

lemma placeAll_perm (h : ps.Perm qs) : s.placeAll ps = s.placeAll qs := by
  refine ext_pixel fun px hx py hy => ?_
  rw [pixel_placeAll s ps hx hy, pixel_placeAll s qs hx hy, h.countP_eq]

lemma even_countP (h : ∀ p ∈ ps, Even (ps.count p)) (c : Placement → Bool) : Even (ps.countP c) := by
  rw [List.countP_eq_length_filter, ← List.sum_toFinset_count_eq_length]
  refine Finset.even_sum _ fun p hp => ?_
  obtain ⟨hm, hc⟩ := List.mem_filter.1 (List.mem_toFinset.1 hp)
  rw [List.count_filter hc]
  exact h p hm

lemma placeAll_of_even (h : ∀ p ∈ ps, Even (ps.count p)) : s.placeAll ps = s := by
  refine ext_pixel fun px hx py hy => ?_
  have hc := Nat.not_odd_iff_even.2 (even_countP h (·.covers px py))
  rw [pixel_placeAll s ps hx hy, decide_eq_false hc, Bool.xor_false]

/-- Whether a sprite has a set bit that falls on a pixel of the screen which is as `P` says. -/
def HasBitOn (x y : UInt8) (sprite : List UInt8) (P : Nat → Nat → Prop) : Prop :=
  ∃ row < sprite.length, ∃ column < 8, (sprite.getD row 0).toNat.testBit (7 - column) = true ∧
    x.toNat % width + column < width ∧ y.toNat % height + row < height ∧
      P (x.toNat % width + column) (y.toNat % height + row)

variable {x y : UInt8} {sprite : List UInt8}

lemma hasBitOn_iff {P : Nat → Nat → Prop} :
    HasBitOn x y sprite P ↔ ∃ px < width, ∃ py < height, Covers x y sprite px py ∧ P px py := by
  constructor
  · rintro ⟨row, hr, column, hc, hb, hx, hy, hp⟩
    refine ⟨_, hx, _, hy, ⟨Nat.le_add_right _ _, Nat.add_lt_add_left hr _, Nat.le_add_right _ _,
      Nat.add_lt_add_left hc _, ?_⟩, hp⟩
    rw [Nat.add_sub_cancel_left, Nat.add_sub_cancel_left]
    exact hb
  · rintro ⟨px, hx, py, hy, ⟨htop, hbottom, hleft, hright, hb⟩, hp⟩
    have hcolumn : x.toNat % width + (px - x.toNat % width) = px := Nat.add_sub_cancel' hleft
    have hrow : y.toNat % height + (py - y.toNat % height) = py := Nat.add_sub_cancel' htop
    refine ⟨py - y.toNat % height, by omega, px - x.toNat % width, by omega, hb, ?_⟩
    rw [hcolumn, hrow]
    exact ⟨hx, hy, hp⟩

lemma hasBitOn_congr {P Q : Nat → Nat → Prop}
    (h : ∀ px < width, ∀ py < height, Covers x y sprite px py → (P px py ↔ Q px py)) :
    HasBitOn x y sprite P ↔ HasBitOn x y sprite Q := by
  rw [hasBitOn_iff, hasBitOn_iff]
  exact exists_congr fun px => and_congr_right fun hx => exists_congr fun py => and_congr_right fun hy =>
    and_congr_right (h px hx py hy)

lemma collides_iff_hasBitOn :
    (s.draw x y sprite).2 = true ↔ HasBitOn x y sprite fun px py => s.pixel px py = true := by
  rw [draw_collides_iff, hasBitOn_iff]

lemma second_collides_iff :
    ((s.draw x y sprite).1.draw x y sprite).2 = true ↔ HasBitOn x y sprite fun px py => s.pixel px py = false := by
  rw [collides_iff_hasBitOn]
  refine hasBitOn_congr fun px hx py hy hc => ?_
  rw [pixel_draw s x y sprite hx hy, decide_eq_true hc, Bool.xor_true, Bool.not_eq_true']

lemma second_collides_iff_of_silent (h : (s.draw x y sprite).2 = false) :
    ((s.draw x y sprite).1.draw x y sprite).2 = true ↔ HasBitOn x y sprite fun _ _ => True := by
  rw [second_collides_iff]
  refine hasBitOn_congr fun px hx py hy hc => iff_of_true (Bool.eq_false_iff.2 fun hl => ?_) trivial
  rw [(draw_collides_iff s x y sprite).2 ⟨px, hx, py, hy, hc, hl⟩] at h
  cases h

/-- A dot that is put out by the first of two draws and lit again by the second. -/
theorem second_draw_silent :
    let s := (blank.draw 0 0 [0x80]).1
    ¬ (((s.draw 0 0 [0x80]).1.draw 0 0 [0x80]).2 = true ↔ HasBitOn 0 0 [0x80] fun _ _ => True) := by
  intro s h
  have hb : HasBitOn 0 0 [0x80] fun _ _ => True :=
    ⟨0, by decide, 0, by decide, by decide, by decide, by decide, trivial⟩
  have hs : ((s.draw 0 0 [0x80]).1.draw 0 0 [0x80]).2 = false := by decide +kernel
  rw [h.2 hb] at hs
  cases hs

theorem draws_superpose (s : Screen) :
    (∀ ps qs : List Placement, ps.Perm qs → s.placeAll ps = s.placeAll qs) ∧
      (∀ ps : List Placement, (∀ p ∈ ps, Even (ps.count p)) → s.placeAll ps = s) ∧
      ∀ (x y : UInt8) (sprite : List UInt8),
        (((s.draw x y sprite).1.draw x y sprite).2 = true ↔
          HasBitOn x y sprite fun px py => s.pixel px py = false) ∧
        ((s.draw x y sprite).2 = false →
          (((s.draw x y sprite).1.draw x y sprite).2 = true ↔ HasBitOn x y sprite fun _ _ => True)) :=
  ⟨fun _ _ h => placeAll_perm s h, fun _ h => placeAll_of_even s h,
    fun _ _ _ => ⟨second_collides_iff s, second_collides_iff_of_silent s⟩⟩

/-- Two sprites that overlap in a corner, where both of them are cut off. -/
theorem draws_superpose_corner :
    let p : Placement := ⟨62, 31, [0xFF, 0xFF]⟩
    let q : Placement := ⟨60, 30, [0x0F, 0xC3]⟩
    [p, q, p].Perm [q, p, p] ∧ blank.placeAll [p, q, p] = blank.placeAll [q, p, p] ∧
      (∀ d ∈ [p, q, q, p], Even ([p, q, q, p].count d)) ∧ blank.placeAll [p, q, q, p] = blank ∧
      (blank.draw 62 31 [0xFF, 0xFF]).2 = false ∧
      (((blank.draw 62 31 [0xFF, 0xFF]).1.draw 62 31 [0xFF, 0xFF]).2 = true ↔
        HasBitOn 62 31 [0xFF, 0xFF] fun _ _ => True) := by
  intro p q
  obtain ⟨hperm, heven, hpair⟩ := draws_superpose blank
  have hp : [p, q, p].Perm [q, p, p] := .swap q p [p]
  have he : ∀ d ∈ [p, q, q, p], Even ([p, q, q, p].count d) := by decide
  have hs : (blank.draw 62 31 [0xFF, 0xFF]).2 = false := by decide +kernel
  exact ⟨hp, hperm _ _ hp, he, heven _ he, hs, (hpair _ _ _).2 hs⟩

end Chip8.Screen
