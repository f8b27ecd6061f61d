import Chip8.Proofs.Emulator.Apply

/-! What a frame takes out of the mailbox, and that nothing else in an emulator touches it. -/

namespace Chip8

def Mailbox.due {γ : Type} (limit : Nat) (ms : List (Message γ)) : Nat :=
  min (min limit ms.length) (1 + ms.findIdx Message.isStop)

lemma Mailbox.batch_eq {γ : Type} (limit : Nat) (ms : List (Message γ)) :
    batch limit ms = (ms.take (due limit ms), ms.drop (due limit ms)) := by
  induction limit generalizing ms with
  | zero => simp [batch, due]
  | succ n ih =>
    cases ms with
    | nil => simp [batch, due]
    | cons m ms =>
      cases hm : m.isStop with
      | true =>
        have hn : due (n + 1) (m :: ms) = 1 := by simp [due, List.findIdx_cons, hm]
        rw [hn]
        simp [batch, hm]
      | false =>
        have hn : due (n + 1) (m :: ms) = due n ms + 1 := by
          simp only [due, List.findIdx_cons, hm, cond_false, List.length_cons]
          omega
        rw [hn]
        simp [batch, hm, ih]

namespace Emulator

variable {σ γ : Type} [Host σ γ]

def SameInbox (e f : Emulator σ γ) : Prop := f.mailbox = e.mailbox ∧ f.batchLimit = e.batchLimit

lemma apply_inbox (e : Emulator σ γ) (b : Mailbox γ) (n : Nat) (m : Message γ) :
    { e with mailbox := b, batchLimit := n }.apply m =
      { e.apply m with mailbox := b, batchLimit := n } := by
  cases m with
  | pause =>
    simp only [apply, pause, sound_eq]
    split <;> rfl
  | resume =>
    simp only [apply, resume, sound_eq]
    split <;> rfl
  | swapRom rom =>
    simp only [apply, loadRom, reset, sound_eq]
    cases checkRom rom <;> rfl
  | _ => rfl

lemma apply_sameInbox (e : Emulator σ γ) (m : Message γ) : SameInbox e (e.apply m) :=
  ⟨(apply_applies e m).mailbox, (apply_applies e m).batchLimit⟩

lemma cycle_sameInbox (e : Emulator σ γ) : SameInbox e e.cycle.2 := by
  cases hc : e.cycle.1 with
  | error error =>
    rw [cycle_of_error hc]
    exact ⟨rfl, rfl⟩
  | ok i =>
    obtain ⟨r, -, -, hn⟩ := cycle_of_ok hc
    rw [hn, sound_eq]
    exact ⟨rfl, rfl⟩

lemma execute_sameInbox (e : Emulator σ γ) (i : Instruction) : SameInbox e (e.execute i).2 := by
  obtain he | ⟨r, -, he⟩ := execute_cases e i
  · rw [he]
    exact ⟨rfl, rfl⟩
  · rw [he, sound_eq]
    exact ⟨rfl, rfl⟩

lemma reset_sameInbox (e : Emulator σ γ) : SameInbox e e.reset := by
  simp only [reset, sound_eq]
  exact ⟨rfl, rfl⟩

omit [Host σ γ] in
lemma SameInbox.trans {e f g : Emulator σ γ} (h : SameInbox e f) (h' : SameInbox f g) : SameInbox e g :=
  ⟨h'.1.trans h.1, h'.2.trans h.2⟩

lemma sameInbox_invariant (e : Emulator σ γ) : FrameInvariant fun _ f => SameInbox e f where
  apply m h := h.trans (apply_sameInbox _ m)
  announce h := h
  abort h := h
  cycle _ _ h := SameInbox.trans (f := preview _) h (cycle_sameInbox _)
  windUp h := by
    simp only [windUp, sound_eq]
    exact h
  publish h := h

lemma frame_pending (e : Emulator σ γ) :
    e.frame.2.mailbox = { e.mailbox with
      pending := e.mailbox.pending.drop (Mailbox.due e.batchLimit e.mailbox.pending) } ∧
      e.frame.2.batchLimit = e.batchLimit := by
  have hb : (Mailbox.batch e.batchLimit e.mailbox.pending).2 =
      e.mailbox.pending.drop (Mailbox.due e.batchLimit e.mailbox.pending) := by rw [Mailbox.batch_eq]
  let taken : Emulator σ γ := { e with
    mailbox := { e.mailbox with pending := (Mailbox.batch e.batchLimit e.mailbox.pending).2 } }
  have h : SameInbox taken e.frame.2 :=
    @FrameInvariant.frame _ _ _ _ [] e (sameInbox_invariant taken) ⟨rfl, rfl⟩
  rw [← hb]
  exact h

/-- The messages of a frame, taken and applied one after another, and the emulator that results. -/
def receive : Nat → Emulator σ γ → List (Message γ) × Emulator σ γ
  | 0, e => ([], e)
  | n + 1, e =>
    match e.mailbox.pending with
    | [] => ([], e)
    | m :: ms =>
      let next := { e with mailbox := { e.mailbox with pending := ms } }.apply m
      if m.isStop then ([m], next)
      else
        let rest := receive n next
        (m :: rest.1, rest.2)

lemma apply_pending (e : Emulator σ γ) (m : Message γ) (ms : List (Message γ)) :
    { e with mailbox := { e.mailbox with pending := ms } }.apply m =
      { e.apply m with mailbox := { (e.apply m).mailbox with pending := ms } } := by
  obtain ⟨hb, hl⟩ := apply_sameInbox e m
  rw [hb]
  refine (apply_inbox e { e.mailbox with pending := ms } e.batchLimit m).trans ?_
  rw [← hl]

lemma receive_eq (n : Nat) (e : Emulator σ γ) :
    receive n e = ((Mailbox.batch n e.mailbox.pending).1,
      (Mailbox.batch n e.mailbox.pending).1.foldl apply
        { e with mailbox := { e.mailbox with pending := (Mailbox.batch n e.mailbox.pending).2 } }) := by
  induction n generalizing e with
  | zero => rfl
  | succ n ih =>
    cases hp : e.mailbox.pending with
    | nil =>
      have he : { e with mailbox := { e.mailbox with pending := [] } } = e := by rw [← hp]
      simp only [receive, hp, Mailbox.batch, List.foldl_nil, he]
    | cons m ms =>
      have hn := apply_pending e m ms
      cases hm : m.isStop with
      | true => simp only [receive, hp, Mailbox.batch, hm, if_true, List.foldl_cons, List.foldl_nil]
      | false =>
        simp only [receive, hp, Mailbox.batch, hm, Bool.false_eq_true, if_false, List.foldl_cons, ih, hn]
        rw [apply_pending e m (Mailbox.batch n ms).2]

lemma receive_drain (e : Emulator σ γ) :
    receive e.batchLimit e =
      (e.mailbox.pending.take (Mailbox.due e.batchLimit e.mailbox.pending), e.drain) := by
  rw [receive_eq, drain, Mailbox.batch_eq]

end Emulator

end Chip8
