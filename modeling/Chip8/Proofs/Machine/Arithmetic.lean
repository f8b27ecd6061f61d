import Chip8.Machine.Execute
import Mathlib.Tactic.Lemma

/-! The instructions that compute one register from another, in exact arithmetic. A result and its flag are two digits of
one number, and where both go to the same register the flag is what is left. -/

namespace Chip8

lemma Registers.get_set_of_lt (r : Registers) {x z : UInt8} (hx : x < 16) (hz : z < 16) (v : UInt8) :
    (r.set x v).get z = if x = z then v else r.get z := by
  have hx' : x.toNat % 16 = x.toNat := Nat.mod_eq_of_lt (UInt8.lt_iff_toNat_lt.1 hx)
  have hz' : z.toNat % 16 = z.toNat := Nat.mod_eq_of_lt (UInt8.lt_iff_toNat_lt.1 hz)
  simp only [get_set, hx', hz', UInt8.toNat_inj]

namespace Machine

open Registers

/-- The instruction leaves numbers for which `p` holds in VX and in VF, and it changes no other register nor anything
else. -/
def Computes (m : Machine) (i : Instruction) (x : UInt8) (p : Nat → Nat → Prop) : Prop :=
  ∃ r : Registers, m.execute i = .ok { machine := { m with registers := r } } ∧
    (∀ z < 16, z ≠ x → z ≠ flag → r.get z = m.reg z) ∧ p (r.get x).toNat (r.get flag).toNat

section

variable {m : Machine} {i : Instruction} {x v : UInt8} {c : Bool} {p : Nat → Nat → Prop}

lemma toNat_toUInt8 (c : Bool) : c.toUInt8.toNat = c.toNat := by cases c <;> rfl

lemma computes_of_setReg (hx : x < 16) (h : m.execute i = quiet (m.setReg x v))
    (hp : p v.toNat (if x = flag then v else m.reg flag).toNat) : m.Computes i x p := by
  refine ⟨m.registers.set x v, h, fun z hz hne _ => ?_, ?_⟩
  · rw [get_set_of_lt _ hx hz, if_neg hne.symm]
    rfl
  · rw [get_set_self, get_set_of_lt _ hx (by decide)]
    exact hp

/-- The flag is written last, so that it is right everywhere, and the result is right where the flag is not. -/
lemma computes_of_setResult {q : Nat → Prop} (hx : x < 16) (h : m.execute i = quiet (m.setResult x v c))
    (hq : q c.toNat) (hp : p v.toNat c.toNat) : m.Computes i x fun v f => q f ∧ (x ≠ flag → p v f) := by
  have hflag : flag < 16 := by decide
  refine ⟨(m.registers.set x v).set flag c.toUInt8, h, fun z hz hne hnf => ?_, ?_, fun hne => ?_⟩
  · rw [get_set_of_lt _ hflag hz, if_neg hnf.symm, get_set_of_lt _ hx hz, if_neg hne.symm]
    rfl
  · rw [get_set_self, toNat_toUInt8]
    exact hq
  · rw [get_set_self, get_set_of_lt _ hflag hx, if_neg hne.symm, get_set_self, toNat_toUInt8]
    exact hp

lemma Computes.imp {q : Nat → Nat → Prop} (h : m.Computes i x p) (hpq : ∀ v f, p v f → q v f) : m.Computes i x q := by
  obtain ⟨r, hr, hkeep, hp⟩ := h
  exact ⟨r, hr, hkeep, hpq _ _ hp⟩

/-- What a bitwise operation with the result `w` leaves in VX and in VF, which was `old` before. -/
def Logical (m : Machine) (x : UInt8) (w old : Nat) (v f : Nat) : Prop :=
  if m.dialect.logicResetsVf then f = 0 ∧ (x ≠ flag → v = w) else v = w ∧ (x ≠ flag → f = old)

lemma computes_of_setLogic (hx : x < 16) (h : m.execute i = quiet (m.setLogic x v)) :
    m.Computes i x (m.Logical x v.toNat (m.reg flag).toNat) := by
  rw [setLogic] at h
  by_cases hd : m.dialect.logicResetsVf
  · rw [if_pos hd] at h
    have hc := computes_of_setResult (q := (· = 0)) (p := fun v' _ => v' = v.toNat) hx h rfl rfl
    exact hc.imp fun _ _ hp => (if_pos hd).mpr hp
  · rw [if_neg hd] at h
    have hc : m.Computes i x fun v' f => v' = v.toNat ∧ (x ≠ flag → f = (m.reg flag).toNat) :=
      computes_of_setReg hx h ⟨rfl, fun hne => by rw [if_neg hne]⟩
    exact hc.imp fun _ _ hp => (if_neg hd).mpr hp

end

/-- The instructions `8XYN`, where VX is `a` and VY is `b` before. -/
structure ExactArithmetic (m : Machine) (x y : UInt8) (a b : Nat) : Prop where
  copy : m.Computes (.copy x y) x fun v f => v = b ∧ (x ≠ flag → f = (m.reg flag).toNat)
  bitOr : m.Computes (.bitOr x y) x (m.Logical x (a ||| b) (m.reg flag).toNat)
  bitAnd : m.Computes (.bitAnd x y) x (m.Logical x (a &&& b) (m.reg flag).toNat)
  bitXor : m.Computes (.bitXor x y) x (m.Logical x (a ^^^ b) (m.reg flag).toNat)
  add : m.Computes (.add x y) x fun v f => f = (if 256 ≤ a + b then 1 else 0) ∧ (x ≠ flag → v + 256 * f = a + b)
  sub : m.Computes (.sub x y) x fun v f => f = (if b ≤ a then 1 else 0) ∧ (x ≠ flag → v + b = a + 256 * (1 - f))
  subFrom : m.Computes (.subFrom x y) x fun v f =>
    f = (if a ≤ b then 1 else 0) ∧ (x ≠ flag → v + a = b + 256 * (1 - f))
  shiftRight : m.Computes (.shiftRight x y) x fun v f =>
    f = (if m.dialect.shiftReadsVy then b else a) % 2 ∧
      (x ≠ flag → 2 * v + f = if m.dialect.shiftReadsVy then b else a)
  shiftLeft : m.Computes (.shiftLeft x y) x fun v f =>
    f = (if m.dialect.shiftReadsVy then b else a) / 128 ∧
      (x ≠ flag → v + 256 * f = 2 * if m.dialect.shiftReadsVy then b else a)
  add_sub : x ≠ y → x ≠ flag → y ≠ flag →
    ∃ n k, m.execute (.add x y) = .ok { machine := n } ∧ n.execute (.sub x y) = .ok { machine := k } ∧
      k.reg x = m.reg x

section

variable (m : Machine) {x y : UInt8}

lemma toNat_decide (p : Prop) [Decidable p] : (decide p).toNat = if p then 1 else 0 := by
  by_cases h : p <;> simp [h]

lemma computes_add (hx : x < 16) (y : UInt8) : m.Computes (.add x y) x fun v f =>
    f = (if 256 ≤ (m.reg x).toNat + (m.reg y).toNat then 1 else 0) ∧
      (x ≠ flag → v + 256 * f = (m.reg x).toNat + (m.reg y).toNat) := by
  have ha := (m.reg x).toNat_lt
  have hb := (m.reg y).toNat_lt
  refine computes_of_setResult hx rfl (toNat_decide _) ?_
  rw [toNat_decide, UInt8.toNat_add]
  split <;> omega

/-- A difference as a number: what is taken away and what is left make up the whole again, or 256 more than it. -/
lemma toNat_sub_add (a b : UInt8) : (a - b).toNat + b.toNat = a.toNat + 256 * (1 - (decide (b ≤ a)).toNat) := by
  have ha := a.toNat_lt
  have hb := b.toNat_lt
  simp only [toNat_decide, UInt8.toNat_sub, UInt8.le_iff_toNat_le]
  split <;> omega

lemma computes_sub (hx : x < 16) (y : UInt8) : m.Computes (.sub x y) x fun v f =>
    f = (if (m.reg y).toNat ≤ (m.reg x).toNat then 1 else 0) ∧
      (x ≠ flag → v + (m.reg y).toNat = (m.reg x).toNat + 256 * (1 - f)) :=
  computes_of_setResult hx rfl (toNat_decide _) (toNat_sub_add _ _)

lemma computes_subFrom (hx : x < 16) (y : UInt8) : m.Computes (.subFrom x y) x fun v f =>
    f = (if (m.reg x).toNat ≤ (m.reg y).toNat then 1 else 0) ∧
      (x ≠ flag → v + (m.reg x).toNat = (m.reg y).toNat + 256 * (1 - f)) :=
  computes_of_setResult hx rfl (toNat_decide _) (toNat_sub_add _ _)

lemma toNat_shiftSource (x y : UInt8) :
    (m.shiftSource x y).toNat = if m.dialect.shiftReadsVy then (m.reg y).toNat else (m.reg x).toNat := by
  rw [shiftSource]
  split <;> rfl

lemma toNat_div_two (s : UInt8) : 2 * (s / 2).toNat + (decide (s % 2 = 1)).toNat = s.toNat ∧
    (decide (s % 2 = 1)).toNat = s.toNat % 2 := by
  simp only [toNat_decide, UInt8.toNat_div, ← UInt8.toNat_inj, UInt8.toNat_mod, UInt8.reduceToNat]
  split <;> omega

lemma toNat_mul_two (s : UInt8) : (s * 2).toNat + 256 * (decide (128 ≤ s)).toNat = 2 * s.toNat ∧
    (decide (128 ≤ s)).toNat = s.toNat / 128 := by
  have hs := s.toNat_lt
  simp only [toNat_decide, UInt8.toNat_mul, UInt8.le_iff_toNat_le, UInt8.reduceToNat]
  split <;> omega

lemma computes_shiftRight (hx : x < 16) (y : UInt8) : m.Computes (.shiftRight x y) x fun v f =>
    f = (m.shiftSource x y).toNat % 2 ∧ (x ≠ flag → 2 * v + f = (m.shiftSource x y).toNat) := by
  obtain ⟨hv, hf⟩ := toNat_div_two (m.shiftSource x y)
  exact computes_of_setResult hx rfl hf hv

lemma computes_shiftLeft (hx : x < 16) (y : UInt8) : m.Computes (.shiftLeft x y) x fun v f =>
    f = (m.shiftSource x y).toNat / 128 ∧ (x ≠ flag → v + 256 * f = 2 * (m.shiftSource x y).toNat) := by
  obtain ⟨hv, hf⟩ := toNat_mul_two (m.shiftSource x y)
  exact computes_of_setResult hx rfl hf hv

lemma sub_undoes_add (hx : x < 16) (hy : y < 16) (hxy : x ≠ y) (hxf : x ≠ flag) (hyf : y ≠ flag) :
    ∃ n k, m.execute (.add x y) = .ok { machine := n } ∧ n.execute (.sub x y) = .ok { machine := k } ∧
      k.reg x = m.reg x := by
  obtain ⟨r, hr, hkeep, hcarry, hsum⟩ := m.computes_add hx y
  obtain ⟨s, hs, -, hborrow, hdiff⟩ := computes_sub { m with registers := r } hx y
  refine ⟨_, _, hr, hs, UInt8.toNat_inj.1 ?_⟩
  have hn : { m with registers := r }.reg x = r.get x := rfl
  have hb : { m with registers := r }.reg y = m.reg y := hkeep y hy hxy.symm hyf
  have hsum := hsum hxf
  have hdiff := hdiff hxf
  have ha := (m.reg x).toNat_lt
  have hv := (r.get x).toNat_lt
  rw [hn, hb] at hborrow hdiff
  show (s.get x).toNat = (m.reg x).toNat
  -- The difference borrows exactly where the sum has carried.
  by_cases hc : 256 ≤ (m.reg x).toNat + (m.reg y).toNat
  · rw [if_pos hc] at hcarry
    rw [if_neg (by omega)] at hborrow
    omega
  · rw [if_neg hc] at hcarry
    rw [if_pos (by omega)] at hborrow
    omega

end

theorem arithmetic_exact (m : Machine) (x y : UInt8) (hx : x < 16) (hy : y < 16) :
    m.ExactArithmetic x y (m.reg x).toNat (m.reg y).toNat where
  copy := computes_of_setReg hx rfl ⟨rfl, fun hne => by rw [if_neg hne]⟩
  bitOr := UInt8.toNat_or _ _ ▸ computes_of_setLogic hx rfl
  bitAnd := UInt8.toNat_and _ _ ▸ computes_of_setLogic hx rfl
  bitXor := UInt8.toNat_xor _ _ ▸ computes_of_setLogic hx rfl
  add := m.computes_add hx y
  sub := m.computes_sub hx y
  subFrom := m.computes_subFrom hx y
  shiftRight := m.toNat_shiftSource x y ▸ m.computes_shiftRight hx y
  shiftLeft := m.toNat_shiftSource x y ▸ m.computes_shiftLeft hx y
  add_sub := m.sub_undoes_add hx hy

/-- A sum that carries, the same sum in the flag alone, and the difference that takes it back. -/
theorem arithmetic_exact_carrying :
    let m : Machine :=
      { memory := .ofFont .standard
        registers := ({} : Registers).setMany 13 [0xF0, 0x21, 0xE0]
        random := { key := Vector.replicate 8 0 } }
    (13 : UInt8) < 16 ∧ (14 : UInt8) < 16 ∧ flag < 16 ∧
      m.Computes (.add 13 14) 13 (fun v f => v = 0x11 ∧ f = 1) ∧
      m.Computes (.add flag 14) flag (fun _ f => f = 1) ∧
      ∃ n k, m.execute (.add 13 14) = .ok { machine := n } ∧ n.execute (.sub 13 14) = .ok { machine := k } ∧
        k.reg 13 = m.reg 13 := by
  intro m
  have hx : (13 : UInt8) < 16 := by decide
  have hy : (14 : UInt8) < 16 := by decide
  have hf : flag < 16 := by decide
  have hv : (m.reg 13).toNat = 0xF0 ∧ (m.reg 14).toNat = 0x21 ∧ (m.reg flag).toNat = 0xE0 := by decide
  have h := arithmetic_exact m 13 14 hx hy
  have hflag := (arithmetic_exact m flag 14 hf hy).add
  rw [hv.1, hv.2.1] at h
  rw [hv.2.2, hv.2.1] at hflag
  refine ⟨hx, hy, hf, h.add.imp fun v f hp => ?_, hflag.imp fun _ f hp => hp.1,
    h.add_sub (by decide) (by decide) (by decide)⟩
  have hsum := hp.2 (by decide)
  have hcarry : f = 1 := hp.1
  omega

end Machine

end Chip8
