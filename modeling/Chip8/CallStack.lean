import Chip8.Error
/-!
The call stack: sixteen slots of which the first `depth` are in use. What it holds is the list `toList`,
latest address first, and the slots above it are never looked at.
-/

namespace Chip8

structure CallStack where
  slots : Vector UInt16 16 := Vector.replicate 16 0
  depth : Nat := 0
  depth_le : depth ≤ 16 := by omega
  deriving DecidableEq

namespace CallStack

def empty : CallStack := {}

def push (s : CallStack) (address pc : UInt16) : Except Error CallStack :=
  if h : s.depth < 16 then .ok ⟨s.slots.set s.depth address, s.depth + 1, h⟩
  else .error (.stackOverflow pc)

def pop (s : CallStack) (pc : UInt16) : Except Error (UInt16 × CallStack) :=
  match s with
  | ⟨_, 0, _⟩ => .error (.stackUnderflow pc)
  | ⟨slots, d + 1, h⟩ => .ok (slots[d], ⟨slots, d, Nat.le_of_succ_le h⟩)

def isEmpty (s : CallStack) : Bool := s.depth == 0

/-- The addresses in use, latest first. -/
def toList (s : CallStack) : List UInt16 :=
  (s.slots.toList.take s.depth).reverse

@[simp] theorem length_toList (s : CallStack) : s.toList.length = s.depth := by
  simp [toList, s.depth_le]

@[simp] theorem toList_empty : empty.toList = [] := rfl

theorem toList_of_push {s t : CallStack} {address pc : UInt16} (h : s.push address pc = .ok t) :
    t.toList = address :: s.toList := by
  unfold push at h
  split at h
  · rename_i hd
    cases h
    simp [toList, Vector.toList_set, List.take_add_one, List.take_set_of_le, hd]
  · cases h

theorem push_eq_error_iff {s : CallStack} {address pc : UInt16} {e : Error} :
    s.push address pc = .error e ↔ s.depth = 16 ∧ e = .stackOverflow pc := by
  have hd := s.depth_le
  unfold push
  split
  · rename_i h
    exact ⟨nofun, fun he => by omega⟩
  · rename_i h
    constructor
    · intro he
      cases he
      exact ⟨by omega, rfl⟩
    · rintro ⟨-, rfl⟩
      rfl

theorem toList_of_pop {s t : CallStack} {address pc : UInt16} (h : s.pop pc = .ok (address, t)) :
    s.toList = address :: t.toList := by
  obtain ⟨slots, depth, hd⟩ := s
  cases depth with
  | zero => cases h
  | succ d =>
    cases h
    simp [toList, List.take_add_one, Nat.lt_of_succ_le hd]

theorem pop_eq_error_iff {s : CallStack} {pc : UInt16} {e : Error} :
    s.pop pc = .error e ↔ s.depth = 0 ∧ e = .stackUnderflow pc := by
  obtain ⟨slots, depth, hd⟩ := s
  cases depth with
  | zero =>
    constructor
    · intro he
      cases he
      exact ⟨rfl, rfl⟩
    · rintro ⟨-, rfl⟩
      rfl
  | succ d => exact ⟨nofun, fun he => by cases he.1⟩

end CallStack

end Chip8
