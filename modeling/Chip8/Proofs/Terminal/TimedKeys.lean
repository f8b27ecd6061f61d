import Chip8.Proofs.Terminal.HeldKeys

/-! Held keys and time. Keys expire from the front of the buffer up to the first that is not due, which is all that
are due, because the buffer stays in the order of the latest presses. -/

namespace Chip8.Terminal

lemma takeWhile_dropWhile_of_pairwise {α : Type} {p : α → Bool} {xs : List α}
    (h : xs.Pairwise fun x y => p y = true → p x = true) :
    xs.takeWhile p = xs.filter p ∧ xs.dropWhile p = xs.filter fun x => !p x := by
  induction xs with
  | nil => exact ⟨rfl, rfl⟩
  | cons x xs ih =>
    obtain ⟨hx, hxs⟩ := List.pairwise_cons.1 h
    obtain ⟨htake, hdrop⟩ := ih hxs
    cases hp : p x with
    | true => simp [hp, htake, hdrop]
    | false =>
      have hlater : ∀ y ∈ xs, p y = false := fun y hy => Bool.eq_false_iff.2 fun h => by simp [hx y hy h] at hp
      have hnone : xs.filter p = [] := List.filter_eq_nil_iff.2 fun y hy => by simp [hlater y hy]
      have hall : (xs.filter fun y => !p y) = xs := List.filter_eq_self.2 fun y hy => by simp [hlater y hy]
      simp [hp, hnone, hall]

lemma last_ne_true_iff (xs : List Bool) :
    ¬ xs.getLast?.getD false = true ↔ true ∉ xs ∨ xs.getLast? = some false := by
  cases hlast : xs.getLast? with
  | none => simp [List.getLast?_eq_none_iff.1 hlast]
  | some b =>
    cases b with
    | true => simp [List.mem_of_getLast? hlast]
    | false => simp

/-- What is done to a key buffer, with a reading of the clock. -/
inductive Touch where
  | press (key : UInt8) (now : Nat)
  | expire (now : Nat)

namespace Touch

def time : Touch → Nat
  | press _ now | expire now => now

def pressOf? (key : UInt8) : Touch → Option Nat
  | press k now => if k = key then some now else none
  | expire _ => none

end Touch

def latestPress (key : UInt8) (ts : List Touch) : Option Nat := (ts.filterMap (Touch.pressOf? key)).getLast?

lemma latestPress_snoc (key : UInt8) (ts : List Touch) (t : Touch) :
    latestPress key (ts ++ [t]) = (t.pressOf? key).or (latestPress key ts) := by
  rw [latestPress, List.filterMap_append, List.getLast?_append, List.filterMap_cons]
  cases t.pressOf? key <;> rfl

lemma time_of_latestPress {key : UInt8} {ts : List Touch} {since : Nat} (h : latestPress key ts = some since) :
    ∃ t ∈ ts, t.time = since := by
  obtain ⟨t, ht, hs⟩ := List.mem_filterMap.1 (List.mem_of_getLast? h)
  cases t with
  | press k now =>
    simp only [Touch.pressOf?, Option.ite_none_right_eq_some, Option.some.injEq] at hs
    exact ⟨_, ht, hs.2⟩
  | expire now => cases hs

namespace KeyBuffer

def touch (b : KeyBuffer) : Touch → KeyBuffer
  | .press key now => (b.press key now).2
  | .expire now => (b.expire now).2

def touchAll (b : KeyBuffer) (ts : List Touch) : KeyBuffer := ts.foldl touch b

/-- Every press, and every key that expires. -/
def heard (b : KeyBuffer) : Touch → List Command
  | .press key _ => [.press key]
  | .expire now => (b.releases now).1

/-- Every press of a key that was up before, and every key that expires. -/
def told (b : KeyBuffer) : Touch → List Command
  | .press key now => if (b.press key now).1 then [.press key] else []
  | .expire now => (b.releases now).1

def record (f : KeyBuffer → Touch → List Command) (b : KeyBuffer) : List Touch → List Command
  | [] => []
  | t :: ts => f b t ++ record f (b.touch t) ts

variable {b : KeyBuffer}

lemma nodup_touch (hb : b.keys.Nodup) (t : Touch) : (b.touch t).keys.Nodup := by
  cases t with
  | press key now => exact nodup_press hb key now
  | expire now => exact nodup_expire hb now

lemma turns_told (hb : b.keys.Nodup) (t : Touch) (key : UInt8) :
    turns key (b.told t) = if (b.touch t).holds key = b.holds key then [] else [(b.touch t).holds key] := by
  cases t with
  | press k now =>
    have ht : b.told (.press k now) = (if b.holds k then none else some (Command.press k)).toList := by
      rw [told, press]
      cases b.holds k <;> rfl
    rw [ht]
    exact b.turns_press k key now
  | expire now => exact turns_releases hb now key

lemma alternating_told (hb : b.keys.Nodup) (ts : List Touch) (key : UInt8) :
    Alternating (b.holds key) (turns key (record told b ts)) := by
  induction ts generalizing b with
  | nil => trivial
  | cons t ts ih =>
    rw [record, turns_append, turns_told hb]
    exact (ih (nodup_touch hb t)).change

lemma last_heard (hb : b.keys.Nodup) (t : Touch) (key : UInt8) :
    (turns key (b.heard t)).getLast?.getD (b.holds key) = (b.touch t).holds key := by
  cases t with
  | press k now =>
    rw [touch, holds_press, heard, turns, List.filterMap_cons, Command.down?]
    by_cases hk : k = key
    · simp [hk]
    · simp [hk, Ne.symm hk]
  | expire now => rw [heard, touch, turns_releases hb, last_change]

/-- A key is held just if the last that was heard of it is a press. -/
lemma holds_touchAll (hb : b.keys.Nodup) (ts : List Touch) (key : UInt8) :
    (b.touchAll ts).holds key = (turns key (record heard b ts)).getLast?.getD (b.holds key) := by
  induction ts generalizing b with
  | nil => rfl
  | cons t ts ih =>
    rw [record, turns_append, last_append, last_heard hb]
    exact ih (nodup_touch hb t)

/-- The buffer after some touches: no key twice, each with its latest press, the oldest of these first. -/
structure Timed (ts : List Touch) (b : KeyBuffer) : Prop where
  nodup : b.keys.Nodup
  ordered : b.held.Pairwise fun h g => h.since ≤ g.since
  latest : ∀ h ∈ b.held, latestPress h.key ts = some h.since

namespace Timed

variable {ts : List Touch} {now : Nat}

lemma since_le (h : Timed ts b) (hnow : ∀ t ∈ ts, t.time ≤ now) : ∀ k ∈ b.held, k.since ≤ now := by
  intro k hk
  obtain ⟨t, ht, hs⟩ := time_of_latestPress (h.latest k hk)
  rw [← hs]
  exact hnow t ht

lemma press (h : Timed ts b) (hnow : ∀ t ∈ ts, t.time ≤ now) (key : UInt8) :
    Timed (ts ++ [.press key now]) (b.press key now).2 where
  nodup := nodup_press h.nodup key now
  ordered := by
    refine List.pairwise_append.2 ⟨h.ordered.sublist List.eraseP_sublist, List.pairwise_singleton .., ?_⟩
    intro k hk g hg
    rw [List.mem_singleton.1 hg]
    exact h.since_le hnow k (List.mem_of_mem_eraseP hk)
  latest k hk := by
    rw [latestPress_snoc, Touch.pressOf?]
    obtain hk | hk := List.mem_append.1 hk
    · -- No other entry has the key of the one that is taken out.
      have hkeys : k.key ∈ b.keys.erase key := by
        rw [keys, List.erase_eq_eraseP', List.eraseP_map]
        exact List.mem_map_of_mem hk
      have hne : key ≠ k.key := Ne.symm (h.nodup.mem_erase_iff.1 hkeys).1
      rw [if_neg hne]
      exact h.latest k (List.mem_of_mem_eraseP hk)
    · rw [List.mem_singleton.1 hk, if_pos rfl]
      rfl

lemma expire (h : Timed ts b) (now : Nat) : Timed (ts ++ [.expire now]) (b.expire now).2 where
  nodup := nodup_expire h.nodup now
  ordered := h.ordered.sublist (List.dropWhile_sublist _)
  latest k hk := by
    rw [latestPress_snoc]
    exact h.latest k ((List.dropWhile_sublist _).mem hk)

lemma touchAll (h : Timed ts b) {us : List Touch} (hus : ((ts ++ us).map Touch.time).Pairwise (· ≤ ·)) :
    Timed (ts ++ us) (b.touchAll us) := by
  induction us generalizing ts b with
  | nil => rwa [List.append_nil]
  | cons t us ih =>
    rw [List.append_cons] at hus ⊢
    refine ih ?_ hus
    cases t with
    | press key now =>
      refine h.press (fun s hs => ?_) key
      rw [List.append_assoc, List.map_append, List.pairwise_append] at hus
      exact hus.2.2 _ (List.mem_map_of_mem hs) _ List.mem_cons_self
    | expire now => exact h.expire now

lemma expire_eq (h : Timed ts b) (hnow : ∀ t ∈ ts, t.time ≤ now) :
    b.expire now =
      ((b.held.filter fun k => k.since + b.timeout ≤ now).map HeldKey.key,
        { b with held := b.held.filter fun k => now < k.since + b.timeout }) := by
  have hdue : ∀ k ∈ b.held, b.due now k = decide (k.since + b.timeout ≤ now) := fun k hk => by
    have := h.since_le hnow k hk
    rw [due, decide_eq_decide]
    omega
  have hsorted : b.held.Pairwise fun k g => b.due now g = true → b.due now k = true :=
    h.ordered.imp fun {k g} hle hg => by
      rw [due, decide_eq_true_eq] at hg ⊢
      omega
  obtain ⟨htake, hdrop⟩ := takeWhile_dropWhile_of_pairwise hsorted
  have hkept : (b.held.filter fun k => !b.due now k) = b.held.filter fun k => now < k.since + b.timeout :=
    List.filter_congr fun k hk => by rw [hdue k hk, ← decide_not, decide_eq_decide, Nat.not_le]
  rw [KeyBuffer.expire, htake, hdrop, List.filter_congr hdue, hkept]

lemma nextExpiry_eq (h : Timed ts b) (now : Nat) :
    b.nextExpiry now = (b.held.map fun k => k.since + b.timeout - now).min? := by
  have ho := h.ordered
  rw [nextExpiry]
  cases hheld : b.held with
  | nil => rfl
  | cons k ks =>
    rw [hheld] at ho
    have hleft : k.since + b.timeout - now ∈ (k :: ks).map fun g => g.since + b.timeout - now :=
      List.mem_map_of_mem List.mem_cons_self
    refine (List.min?_eq_some_iff.2 ⟨hleft, fun left hl => ?_⟩).symm
    obtain ⟨g, hg, rfl⟩ := List.mem_map.1 hl
    obtain rfl | hg := List.mem_cons.1 hg
    · exact Nat.le_refl _
    · have := (List.pairwise_cons.1 ho).1 g hg
      omega

end Timed

lemma timeout_touchAll (b : KeyBuffer) (ts : List Touch) : (b.touchAll ts).timeout = b.timeout := by
  induction ts generalizing b with
  | nil => rfl
  | cons t ts ih =>
    have ht : (b.touch t).timeout = b.timeout := by cases t <;> rfl
    exact (ih (b.touch t)).trans ht

/-- What a buffer that has come of an empty one answers at a time. -/
structure TimesOut (first : KeyBuffer) (ts : List Touch) (now : Nat) (b : KeyBuffer) : Prop extends Timed ts b where
  press : ∀ key, (b.press key now).1 = true ↔ key ∉ b.keys
  /-- A key is up that was never pressed, or that has expired since its latest press. -/
  up : ∀ key, key ∉ b.keys ↔
    true ∉ turns key (record heard first ts) ∨ (turns key (record heard first ts)).getLast? = some false
  expire : b.expire now =
    ((b.held.filter fun k => k.since + first.timeout ≤ now).map HeldKey.key,
      { b with held := b.held.filter fun k => now < k.since + first.timeout })
  alternating : ∀ key, Alternating false (turns key (record told first ts))
  idle : b.nextExpiry now = none ↔ b.keys = []
  next : b.nextExpiry now = (b.held.map fun k => k.since + first.timeout - now).min?

theorem held_keys_time_out (timeout : Nat) (ts : List Touch) (now : Nat)
    (hts : (ts.map Touch.time ++ [now]).Pairwise (· ≤ ·)) :
    let first : KeyBuffer := { timeout := timeout }
    TimesOut first ts now (first.touchAll ts) := by
  intro first
  obtain ⟨hsorted, -, hbefore⟩ := List.pairwise_append.1 hts
  have hnow : ∀ t ∈ ts, t.time ≤ now := fun t ht =>
    hbefore _ (List.mem_map_of_mem ht) _ (List.mem_singleton_self _)
  have hempty : first.keys.Nodup := List.nodup_nil
  have hfirst : Timed [] first := ⟨hempty, List.Pairwise.nil, nofun⟩
  have h : Timed ts (first.touchAll ts) := hfirst.touchAll hsorted
  have htimeout : (first.touchAll ts).timeout = first.timeout := timeout_touchAll first ts
  constructor
  case toTimed => exact h
  case press =>
    intro key
    rw [KeyBuffer.press, Bool.not_eq_true', ← Bool.not_eq_true, holds_iff]
  case up =>
    intro key
    rw [← holds_iff, holds_touchAll hempty]
    exact last_ne_true_iff _
  case expire => rw [h.expire_eq hnow, htimeout]
  case alternating => exact alternating_told hempty ts
  case idle => rw [nextExpiry, Option.map_eq_none_iff, List.head?_eq_none_iff, keys, List.map_eq_nil_iff]
  case next => rw [h.nextExpiry_eq, htimeout]

/-- A key that is pressed again stays for longer than one that is pressed after it for the first time. -/
theorem held_keys_time_out_postponed :
    let first : KeyBuffer := { timeout := 250 }
    let ts : List Touch := [.press 1 0, .press 2 50, .press 1 200, .expire 320]
    let b := first.touchAll ts
    (ts.map Touch.time ++ [400]).Pairwise (· ≤ ·) ∧ TimesOut first ts 400 b ∧ b.keys = [1] ∧ (b.expire 400).1 = [] ∧
      b.nextExpiry 400 = some 50 ∧ turns 2 (record told first ts) = [true, false] ∧ (b.press 2 400).1 = true := by
  intro first ts b
  have hts : (ts.map Touch.time ++ [400]).Pairwise (· ≤ ·) := by decide
  have h : TimesOut first ts 400 b := held_keys_time_out 250 ts 400 hts
  have hkeys : b.keys = [1] := by decide
  exact ⟨hts, h, hkeys, by decide, by decide, by decide, (h.press 2).2 (by rw [hkeys]; decide)⟩

end KeyBuffer

end Chip8.Terminal
