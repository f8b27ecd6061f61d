import Chip8.Proofs.Emulator.Inbox
import Chip8.Proofs.Emulator.Run

/-! Messages are applied in the order in which they were accepted, each of them once. A frame takes a bounded
number of them, and none behind a stop. -/

namespace Chip8.Emulator

variable {σ γ : Type} [Host σ γ]

def applied (e : Emulator σ γ) : Action γ → List (Message γ)
  | .frame => (receive e.batchLimit e).1
  | _ => []

lemma act_sameInbox {e : Emulator σ γ} {a : Action γ} (hf : a ≠ .frame) (hm : a.message = none) :
    SameInbox e (e.act a) := by
  cases a with
  | trySend m | send m => cases hm
  | frame => exact absurd rfl hf
  | cycle => exact cycle_sameInbox e
  | execute i => exact execute_sameInbox e i
  | reset => exact reset_sameInbox e
  | operate m => exact apply_sameInbox e m

lemma applied_of_ne {e : Emulator σ γ} {a : Action γ} (hf : a ≠ .frame) : e.applied a = [] := by
  cases a with
  | frame => exact absurd rfl hf
  | _ => rfl

omit [Host σ γ] in
lemma accepted_of_none {e : Emulator σ γ} {a : Action γ} (hm : a.message = none) : e.accepted a = [] := by
  cases a with
  | trySend m | send m => cases hm
  | _ => rfl

lemma act_conserves (e : Emulator σ γ) (a : Action γ) :
    e.applied a ++ (e.act a).mailbox.pending = e.mailbox.pending ++ e.accepted a := by
  by_cases hf : a = .frame
  · subst hf
    have hp := congrArg Mailbox.pending (frame_pending e).1
    simp only [applied, receive_drain, act, hp, List.take_append_drop, accepted, List.append_nil]
  · rw [applied_of_ne hf, List.nil_append]
    cases hm : a.message with
    | none =>
      rw [(act_sameInbox hf hm).1, accepted_of_none hm, List.append_nil]
    | some m =>
      obtain ⟨ha, -, hn⟩ | ⟨ha, hn⟩ := act_submission (e := e) hm
      · rw [ha, hn]
        rfl
      · rw [ha, hn, List.append_nil]

lemma run_conserves (e : Emulator σ γ) (as : List (Action γ)) :
    collect applied e as ++ (e.run as).mailbox.pending = e.mailbox.pending ++ collect accepted e as := by
  induction as generalizing e with
  | nil => exact (List.append_nil _).symm
  | cons a as ih =>
    calc collect applied e (a :: as) ++ (e.run (a :: as)).mailbox.pending
        = e.applied a ++ (collect applied (e.act a) as ++ ((e.act a).run as).mailbox.pending) :=
          List.append_assoc ..
      _ = (e.applied a ++ (e.act a).mailbox.pending) ++ collect accepted (e.act a) as := by
          rw [ih, List.append_assoc]
      _ = e.mailbox.pending ++ collect accepted e (a :: as) := by
          rw [act_conserves, List.append_assoc]
          rfl

structure Bounded (config : Config) (e : Emulator σ γ) : Prop where
  capacity : e.mailbox.capacity = max config.queueCapacity 1
  limit : e.batchLimit = config.messagesPerFrame
  length_le : e.mailbox.pending.length ≤ e.mailbox.capacity

omit [Host σ γ] in
lemma create_bounded (font : Font) (host : σ) (config : Config) (key : ChaCha.Key) :
    Bounded config (create font host config key : Emulator σ γ) :=
  ⟨rfl, rfl, Nat.le_max_right ..⟩

lemma Bounded.act {config : Config} {e : Emulator σ γ} (h : Bounded config e) (a : Action γ) :
    Bounded config (e.act a) := by
  obtain ⟨hc, hl, hp⟩ := h
  by_cases hf : a = .frame
  · subst hf
    obtain ⟨hb, hn⟩ := frame_pending e
    refine ⟨?_, hn.trans hl, ?_⟩
    · exact (congrArg Mailbox.capacity hb).trans hc
    · simp only [Emulator.act, hb, List.length_drop]
      omega
  · cases hm : a.message with
    | none =>
      obtain ⟨hb, hn⟩ := act_sameInbox (e := e) hf hm
      exact ⟨hb ▸ hc, hn.trans hl, hb ▸ hp⟩
    | some m =>
      obtain ⟨-, hroom, hn⟩ | ⟨-, hn⟩ := act_submission (e := e) hm
      · have hlt : e.mailbox.pending.length < e.mailbox.capacity := by
          simpa [Mailbox.isFull] using hroom
        rw [hn]
        refine ⟨hc, hl, ?_⟩
        simp only [Mailbox.post, List.length_append, List.length_singleton]
        omega
      · rw [hn]
        exact ⟨hc, hl, hp⟩

lemma Bounded.run {config : Config} {e : Emulator σ γ} (h : Bounded config e) (as : List (Action γ)) :
    Bounded config (e.run as) :=
  run_induction (fun _ a h => h.act a) h as

omit [Host σ γ] in
lemma trySend_queueFull_iff {e : Emulator σ γ} {m : Message γ} (hm : m.validate = .ok ()) :
    (Link.live e).trySend m = .error .queueFull ↔ e.mailbox.capacity ≤ e.mailbox.pending.length := by
  simp only [Link.trySend, hm, Mailbox.isFull]
  by_cases h : e.mailbox.capacity ≤ e.mailbox.pending.length <;> simp [h]

structure Delivered (config : Config) (first : Emulator σ γ) (as : List (Action γ)) : Prop where
  inOrder : collect applied first as ++ (first.run as).mailbox.pending = .pause :: collect accepted first as
  bounded : (first.run as).mailbox.pending.length ≤ max config.queueCapacity 1
  received : receive config.messagesPerFrame (first.run as) =
    ((first.run as).mailbox.pending.take (Mailbox.due config.messagesPerFrame (first.run as).mailbox.pending),
      (first.run as).drain)
  left : (first.run as).frame.2.mailbox.pending =
    (first.run as).mailbox.pending.drop (Mailbox.due config.messagesPerFrame (first.run as).mailbox.pending)
  refused : ∀ m : Message γ, m.validate = .ok () →
    ((Link.live (first.run as)).trySend m = .error .queueFull ↔
      (first.run as).mailbox.pending.length = max config.queueCapacity 1)

theorem messages_delivered (font : Font) (host : σ) (config : Config) (key : ChaCha.Key)
    (as : List (Action γ)) : Delivered config (create font host config key) as := by
  have hb : Bounded config ((create font host config key : Emulator σ γ).run as) :=
    (create_bounded font host config key).run as
  obtain ⟨hc, hl, hp⟩ := hb
  refine ⟨run_conserves _ as, hc ▸ hp, ?_, ?_, ?_⟩
  · rw [← hl]
    exact receive_drain _
  · rw [← hl]
    exact congrArg Mailbox.pending (frame_pending _).1
  · intro m hm
    rw [trySend_queueFull_iff hm, ← hc]
    exact ⟨fun h => Nat.le_antisymm hp h, fun h => Nat.le_of_eq h.symm⟩

end Chip8.Emulator
