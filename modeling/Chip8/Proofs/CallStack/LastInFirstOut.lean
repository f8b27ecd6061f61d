import Chip8.CallStack
import Mathlib.Tactic.Lemma

/-! What is seen of a call stack. Its operations answer as on a list of at most sixteen addresses, latest first, so that
what is left in the slots above the depth is never seen. -/

namespace Chip8.CallStack

inductive Operation where
  | push (address pc : UInt16)
  | pop (pc : UInt16)
  | clear

/-- The address that is popped, if there is one, or why the operation fails. -/
abbrev Answer := Except Error (Option UInt16)

namespace Operation

/-- The only way in which an operation can fail. -/
def fault : Operation → Option Error
  | push _ pc => some (.stackOverflow pc)
  | pop pc => some (.stackUnderflow pc)
  | clear => none

def onStack (s : CallStack) : Operation → Answer × CallStack
  | push address pc =>
    match s.push address pc with
    | .ok t => (.ok none, t)
    | .error e => (.error e, s)
  | pop pc =>
    match s.pop pc with
    | .ok (address, t) => (.ok (some address), t)
    | .error e => (.error e, s)
  | clear => (.ok none, .empty)

def onList (l : List UInt16) : Operation → Answer × List UInt16
  | push address pc => if l.length < 16 then (.ok none, address :: l) else (.error (.stackOverflow pc), l)
  | pop pc =>
    match l with
    | [] => (.error (.stackUnderflow pc), [])
    | address :: rest => (.ok (some address), rest)
  | clear => (.ok none, [])

end Operation

structure Sight where
  answer : Answer
  depth : Nat
  isEmpty : Bool

/-- All that a user can do with a stack that is kept in an `S`, and see of it. -/
structure Interface (S : Type) where
  operate : S → Operation → Answer × S
  depth : S → Nat
  isEmpty : S → Bool

namespace Interface

variable {S T : Type}

def after (I : Interface S) (s : S) (ops : List Operation) : S := ops.foldl (fun s op => (I.operate s op).2) s

def sights (I : Interface S) (s : S) : List Operation → List Sight
  | [] => []
  | op :: ops =>
    let (answer, t) := I.operate s op
    ⟨answer, I.depth t, I.isEmpty t⟩ :: I.sights t ops

/-- Every `s` shows what `view s` does, and goes on doing so. -/
structure Refines (I : Interface S) (J : Interface T) (view : S → T) : Prop where
  operate : ∀ s op, J.operate (view s) op = ((I.operate s op).1, view (I.operate s op).2)
  depth : ∀ s, J.depth (view s) = I.depth s
  isEmpty : ∀ s, J.isEmpty (view s) = I.isEmpty s

variable {I : Interface S} {J : Interface T} {view : S → T}

lemma Refines.after (h : Refines I J view) (s : S) (ops : List Operation) :
    J.after (view s) ops = view (I.after s ops) := by
  induction ops generalizing s with
  | nil => rfl
  | cons op ops ih =>
    have hop : (J.operate (view s) op).2 = view (I.operate s op).2 := congrArg Prod.snd (h.operate s op)
    rw [Interface.after, List.foldl_cons, hop]
    exact ih (I.operate s op).2

lemma Refines.sights (h : Refines I J view) (s : S) (ops : List Operation) :
    J.sights (view s) ops = I.sights s ops := by
  induction ops generalizing s with
  | nil => rfl
  | cons op ops ih => simp only [Interface.sights, h.operate, h.depth, h.isEmpty, ih]

end Interface

def slotted : Interface CallStack := ⟨fun s op => op.onStack s, depth, isEmpty⟩

def listed : Interface (List UInt16) := ⟨fun l op => op.onList l, List.length, List.isEmpty⟩

variable {s t : CallStack} {address pc : UInt16} {op : Operation} {e : Error}

lemma push_eq_ok_iff : (∃ t, s.push address pc = .ok t) ↔ s.toList.length < 16 := by
  have hd := s.depth_le
  rw [length_toList]
  cases hp : s.push address pc with
  | ok t =>
    have hl := congrArg List.length (toList_of_push hp)
    rw [length_toList, List.length_cons, length_toList] at hl
    have ht := t.depth_le
    exact iff_of_true ⟨t, rfl⟩ (by omega)
  | error e =>
    have hfull := (push_eq_error_iff.1 hp).1
    exact iff_of_false nofun (by omega)

lemma pop_eq_ok_iff : (∃ r, s.pop pc = .ok r) ↔ s.toList ≠ [] := by
  cases hp : s.pop pc with
  | ok r =>
    have hl := toList_of_pop hp
    exact iff_of_true ⟨r, rfl⟩ (hl ▸ List.cons_ne_nil _ _)
  | error e =>
    have hl : s.toList.length = 0 := s.length_toList.trans (pop_eq_error_iff.1 hp).1
    exact iff_of_false nofun fun h => h (List.eq_nil_of_length_eq_zero hl)

lemma onList_toList (s : CallStack) (op : Operation) :
    op.onList s.toList = ((op.onStack s).1, (op.onStack s).2.toList) := by
  cases op with
  | push address pc =>
    cases hp : s.push address pc with
    | ok t =>
      have hroom : s.toList.length < 16 := push_eq_ok_iff.1 ⟨t, hp⟩
      rw [Operation.onList, if_pos hroom, Operation.onStack, hp, toList_of_push hp]
    | error e =>
      obtain ⟨hfull, rfl⟩ := push_eq_error_iff.1 hp
      have hroom : ¬ s.toList.length < 16 := by rw [length_toList, hfull]; decide
      rw [Operation.onList, if_neg hroom, Operation.onStack, hp]
  | pop pc =>
    cases hp : s.pop pc with
    | ok r => rw [toList_of_pop hp, Operation.onList, Operation.onStack, hp]
    | error e =>
      obtain ⟨hempty, rfl⟩ := pop_eq_error_iff.1 hp
      have hl : s.toList = [] := List.eq_nil_of_length_eq_zero (s.length_toList.trans hempty)
      rw [Operation.onStack, hp, hl, Operation.onList]
  | clear => rfl

lemma slotted_refines : slotted.Refines listed toList where
  operate := onList_toList
  depth := length_toList
  isEmpty s := by
    show s.toList.isEmpty = (s.depth == 0)
    rw [← length_toList]
    cases s.toList <;> rfl

lemma fault_of_failed (h : (op.onStack s).1 = .error e) : (op.onStack s).2 = s ∧ op.fault = some e := by
  cases op with
  | push address pc =>
    rw [Operation.onStack] at h ⊢
    cases hp : s.push address pc with
    | ok t => rw [hp] at h; cases h
    | error e' =>
      rw [hp] at h
      cases h
      exact ⟨rfl, congrArg some (push_eq_error_iff.1 hp).2.symm⟩
  | pop pc =>
    rw [Operation.onStack] at h ⊢
    cases hp : s.pop pc with
    | ok r => rw [hp] at h; cases h
    | error e' =>
      rw [hp] at h
      cases h
      exact ⟨rfl, congrArg some (pop_eq_error_iff.1 hp).2.symm⟩
  | clear => cases h

lemma toList_congr (hd : t.depth = s.depth) (h : ∀ i < s.depth, t.slots[i]? = s.slots[i]?) :
    t.toList = s.toList := by
  rw [toList, toList, hd]
  refine congrArg List.reverse (List.ext_getElem? fun i => ?_)
  rw [List.getElem?_take, List.getElem?_take]
  by_cases hi : i < s.depth
  · rw [if_pos hi, if_pos hi, Vector.getElem?_toList, Vector.getElem?_toList, h i hi]
  · rw [if_neg hi, if_neg hi]

/-- A stack of the addresses `l` that tells nothing else of itself. -/
structure Holds (l : List UInt16) (s : CallStack) : Prop where
  contents : s.toList = l
  depth : s.depth = l.length
  isEmpty : s.isEmpty = l.isEmpty
  bounded : l.length ≤ 16
  push : ∀ address pc, (∃ t, s.push address pc = .ok t) ↔ l.length < 16
  pop : ∀ pc, (∃ r, s.pop pc = .ok r) ↔ l ≠ []
  operate : ∀ op : Operation, (op.onStack s).1 = (op.onList l).1 ∧ (op.onStack s).2.toList = (op.onList l).2
  failed : ∀ (op : Operation) e, (op.onStack s).1 = .error e → (op.onStack s).2 = s ∧ op.fault = some e
  unseen : ∀ t : CallStack, t.depth = s.depth → (∀ i < s.depth, t.slots[i]? = s.slots[i]?) →
    ∀ ops, slotted.sights t ops = slotted.sights s ops

lemma holds_toList (s : CallStack) : Holds s.toList s where
  contents := rfl
  depth := s.length_toList.symm
  isEmpty := (slotted_refines.isEmpty s).symm
  bounded := s.length_toList ▸ s.depth_le
  push _ _ := push_eq_ok_iff
  pop _ := pop_eq_ok_iff
  operate op := by rw [onList_toList]; exact ⟨rfl, rfl⟩
  failed _ _ := fault_of_failed
  unseen t hd hslots ops := by
    rw [← slotted_refines.sights, ← slotted_refines.sights, toList_congr hd hslots]

theorem bounded_list_refined (ops : List Operation) :
    slotted.sights .empty ops = listed.sights [] ops ∧ Holds (listed.after [] ops) (slotted.after .empty ops) := by
  have hsights := slotted_refines.sights .empty ops
  have hafter := slotted_refines.after .empty ops
  rw [toList_empty] at hsights hafter
  rw [hafter]
  exact ⟨hsights.symm, holds_toList _⟩

/-- Seventeen calls, of which the last fails, and a return, which leaves an address behind in the last slot. -/
theorem bounded_list_refined_overflowing :
    let ops := (List.range 17).map (fun k => .push (.ofNat k) 0x200) ++ [.pop 0x300]
    let s := slotted.after .empty ops
    let t : CallStack := { s with slots := s.slots.set 15 0xFFF }
    (slotted.sights .empty ops).map Sight.answer =
        List.replicate 16 (.ok none) ++ [.error (.stackOverflow 0x200), .ok (some 15)] ∧
      Holds ((List.range 15).reverse.map .ofNat) s ∧ t.depth = s.depth ∧
      (∀ i < s.depth, t.slots[i]? = s.slots[i]?) ∧ ∀ more, slotted.sights t more = slotted.sights s more := by
  intro ops s t
  obtain ⟨hsights, hs⟩ := bounded_list_refined ops
  have hl : listed.after [] ops = (List.range 15).reverse.map .ofNat := by decide
  rw [hl] at hs
  have hslots : ∀ i < s.depth, t.slots[i]? = s.slots[i]? := fun i hi => by
    rw [hs.depth] at hi
    exact Vector.getElem?_set_ne (by decide) (Nat.ne_of_gt hi)
  refine ⟨?_, hs, rfl, hslots, hs.unseen t rfl hslots⟩
  rw [hsights]
  rfl

end Chip8.CallStack
