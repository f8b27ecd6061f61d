import Chip8.Controller
import Chip8.Proofs.Emulator.Frame

/-! Runs of an emulator: submissions by its controllers, frames, and operations of its owner in any order. What a
run does on the way is collected action by action. -/

namespace Chip8

lemma cases_of_getElem?_concat {α : Type} {xs : List α} {x y : α} {n : Nat} (h : (xs ++ [x])[n]? = some y) :
    (n < xs.length ∧ xs[n]? = some y) ∨ (n = xs.length ∧ y = x) := by
  rcases Nat.lt_trichotomy n xs.length with hlt | rfl | hgt
  · rw [List.getElem?_append_left hlt] at h
    exact .inl ⟨hlt, h⟩
  · rw [List.getElem?_concat_length] at h
    exact .inr ⟨rfl, (Option.some.inj h).symm⟩
  · rw [List.getElem?_eq_none (by rw [List.length_append, List.length_singleton]; omega)] at h
    cases h

inductive Action (γ : Type) where
  | trySend (m : Message γ)
  | send (m : Message γ)
  | frame
  | cycle
  | execute (i : Instruction)
  | reset
  /-- The owner carries out the operation that a message stands for. -/
  | operate (m : Message γ)

def Action.message {γ : Type} : Action γ → Option (Message γ)
  | .trySend m | .send m => some m
  | _ => none

def Action.Remote {γ : Type} : Action γ → Prop
  | .trySend _ | .send _ | .frame => True
  | _ => False

namespace Emulator

variable {σ γ : Type}

/-- The emulator at the end of a link, which is `e` where the link is broken. -/
def behind (e : Emulator σ γ) : Link σ γ → Emulator σ γ
  | .live f => f
  | .gone _ => e

variable [Host σ γ]

/-- All controllers of an emulator share its link. A sender that finds no room waits and has no effect. -/
def act (e : Emulator σ γ) : Action γ → Emulator σ γ
  | .trySend m =>
    match (Link.live e).trySend m with
    | .ok link => e.behind link
    | .error _ => e
  | .send m =>
    match (Link.live e).send m with
    | .ok (some link) => e.behind link
    | .ok none | .error _ => e
  | .frame => e.frame.2
  | .cycle => e.cycle.2
  | .execute i => (e.execute i).2
  | .reset => e.reset
  | .operate m => e.apply m

def run (e : Emulator σ γ) (as : List (Action γ)) : Emulator σ γ := as.foldl act e

def Permits (allowed : Emulator σ γ → Action γ → Prop) (e : Emulator σ γ) : List (Action γ) → Prop
  | [] => True
  | a :: as => allowed e a ∧ Permits allowed (e.act a) as

def collect {α : Type} (f : Emulator σ γ → Action γ → List α) (e : Emulator σ γ) : List (Action γ) → List α
  | [] => []
  | a :: as => f e a ++ collect f (e.act a) as

/-- The emulators in which an action attempts a cycle. -/
def attempted (e : Emulator σ γ) : Action γ → List (Emulator σ γ)
  | .frame => e.drain.performed
  | .cycle => [e]
  | _ => []

def accepted (e : Emulator σ γ) : Action γ → List (Message γ)
  | .trySend m =>
    match (Link.live e).trySend m with
    | .ok _ => [m]
    | .error _ => []
  | .send m =>
    match (Link.live e).send m with
    | .ok (some _) => [m]
    | .ok none | .error _ => []
  | _ => []

lemma permits_of_forall {allowed : Action γ → Prop} {e : Emulator σ γ} {as : List (Action γ)}
    (h : ∀ a ∈ as, allowed a) : Permits (fun _ => allowed) e as := by
  induction as generalizing e with
  | nil => trivial
  | cons a as ih => exact ⟨h a List.mem_cons_self, ih fun b hb => h b (List.mem_cons_of_mem a hb)⟩

lemma run_induction {P : Emulator σ γ → Prop} (step : ∀ e a, P e → P (e.act a)) {e : Emulator σ γ} (h : P e)
    (as : List (Action γ)) : P (e.run as) := by
  induction as generalizing e with
  | nil => exact h
  | cons a as ih => exact ih (step e a h)

lemma collect_induction {α : Type} {f : Emulator σ γ → Action γ → List α}
    {allowed : Emulator σ γ → Action γ → Prop} {P : List α → Emulator σ γ → Prop}
    (step : ∀ xs e a, allowed e a → P xs e → P (xs ++ f e a) (e.act a)) {xs : List α} {e : Emulator σ γ}
    {as : List (Action γ)} (ha : Permits allowed e as) (h : P xs e) :
    P (xs ++ collect f e as) (e.run as) := by
  induction as generalizing xs e with
  | nil => simpa [collect, run] using h
  | cons a as ih =>
    rw [collect, ← List.append_assoc]
    exact ih ha.2 (step xs e a ha.1 h)

lemma act_submission {e : Emulator σ γ} {a : Action γ} {m : Message γ} (h : a.message = some m) :
    (e.accepted a = [m] ∧ e.mailbox.isFull = false ∧ e.act a = { e with mailbox := e.mailbox.post m }) ∨
      (e.accepted a = [] ∧ e.act a = e) := by
  cases a with
  | trySend n =>
    cases h
    simp only [accepted, act, Link.trySend]
    cases m.validate with
    | error error => exact Or.inr ⟨rfl, rfl⟩
    | ok u =>
      cases hf : e.mailbox.isFull with
      | true => exact Or.inr ⟨rfl, rfl⟩
      | false => exact Or.inl ⟨rfl, rfl, rfl⟩
  | send n =>
    cases h
    simp only [accepted, act, Link.send, Link.trySend]
    cases hv : m.validate with
    | error error => cases error <;> exact Or.inr ⟨rfl, rfl⟩
    | ok u =>
      cases hf : e.mailbox.isFull with
      | true => exact Or.inr ⟨rfl, rfl⟩
      | false => exact Or.inl ⟨rfl, rfl, rfl⟩
  | _ => cases h

lemma submission_keeps {P : Emulator σ γ → Prop}
    (keep : ∀ e (b : Mailbox γ), P e → P { e with mailbox := b }) {e : Emulator σ γ} {a : Action γ}
    {m : Message γ} (hm : a.message = some m) (h : P e) : P (e.act a) := by
  obtain ⟨-, -, hn⟩ | ⟨-, hn⟩ := act_submission (e := e) hm
  · rw [hn]
    exact keep e _ h
  · rw [hn]
    exact h

end Emulator

end Chip8
