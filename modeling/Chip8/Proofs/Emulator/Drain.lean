import Chip8.Proofs.Emulator.Delivery

/-! Messages at work: what they leave of a pause and of a halt, one by one, over the drain of a frame and over a run. -/

namespace Chip8

namespace Emulator

variable {σ γ : Type} [Host σ γ]

lemma collect_append {α : Type} (f : Emulator σ γ → Action γ → List α) (e : Emulator σ γ)
    (as bs : List (Action γ)) : collect f e (as ++ bs) = collect f e as ++ collect f (e.run as) bs := by
  induction as generalizing e with
  | nil => rfl
  | cons a as ih =>
    rw [List.cons_append, collect, collect, ih, List.append_assoc]
    rfl

lemma run_append (e : Emulator σ γ) (as bs : List (Action γ)) : e.run (as ++ bs) = (e.run as).run bs :=
  List.foldl_append

lemma drain_eq_foldl (e : Emulator σ γ) :
    e.drain = (e.applied .frame).foldl apply { e with
      mailbox := { e.mailbox with pending := (Mailbox.batch e.batchLimit e.mailbox.pending).2 } } := by
  rw [applied, receive_eq, drain]

lemma drain_of_pending_nil {e : Emulator σ γ} (hq : e.mailbox.pending = []) : e.drain = e := by
  have hb : Mailbox.batch e.batchLimit e.mailbox.pending = ([], e.mailbox.pending) := by
    rw [hq]
    cases e.batchLimit <;> rfl
  rw [drain, hb]
  rfl

lemma applied_frame (e : Emulator σ γ) :
    e.applied .frame = e.mailbox.pending.take (Mailbox.due e.batchLimit e.mailbox.pending) := by
  rw [applied, receive_eq, Mailbox.batch_eq]

lemma mem_pending_of_applied {e : Emulator σ γ} {m : Message γ} (h : m ∈ e.applied .frame) :
    m ∈ e.mailbox.pending := by
  rw [applied_frame] at h
  exact List.mem_of_mem_take h

lemma mem_pending_of_frame {e : Emulator σ γ} {m : Message γ} (h : m ∈ e.frame.2.mailbox.pending) :
    m ∈ e.mailbox.pending := by
  rw [(frame_pending e).1] at h
  exact List.mem_of_mem_drop h

lemma paused_foldl (e : Emulator σ γ) (ms : List (Message γ)) :
    (ms.foldl apply e).paused = ms.foldl Message.pausedAfter e.paused := by
  induction ms generalizing e with
  | nil => rfl
  | cons m ms ih => rw [List.foldl_cons, ih, (apply_applies e m).paused, List.foldl_cons]

lemma paused_drain (e : Emulator σ γ) :
    e.drain.paused = (e.applied .frame).foldl Message.pausedAfter e.paused := by
  rw [drain_eq_foldl, paused_foldl]

lemma paused_act {a : Action γ} (ha : a.Remote) (e : Emulator σ γ) :
    (e.act a).paused = (e.applied a).foldl Message.pausedAfter e.paused := by
  cases a with
  | trySend m | send m => exact submission_keeps (P := fun f => f.paused = e.paused) (fun _ _ h => h) rfl rfl
  | frame => exact (sameControls_perform e.drain).paused.trans e.paused_drain
  | _ => exact ha.elim

lemma paused_run {as : List (Action γ)} (ha : ∀ a ∈ as, a.Remote) (e : Emulator σ γ) :
    (e.run as).paused = (collect applied e as).foldl Message.pausedAfter e.paused := by
  induction as generalizing e with
  | nil => rfl
  | cons a as ih =>
    have hs := paused_act (ha a List.mem_cons_self) e
    rw [collect, List.foldl_append, ← hs]
    exact ih (fun b hb => ha b (List.mem_cons_of_mem a hb)) (e.act a)

lemma halt_apply {e : Emulator σ γ} {m : Message γ} (hh : e.halt = none) (hm : m.isStop = false) :
    (e.apply m).halt = none := by
  rw [(apply_applies e m).halt, hh]
  cases m with
  | stop => cases hm
  | swapRom rom => exact ite_self none
  | _ => rfl

lemma halt_foldl {e : Emulator σ γ} {ms : List (Message γ)} (hh : e.halt = none)
    (hm : ∀ m ∈ ms, m.isStop = false) : (ms.foldl apply e).halt = none := by
  induction ms generalizing e with
  | nil => exact hh
  | cons m ms ih =>
    exact ih (halt_apply hh (hm m List.mem_cons_self)) fun n hn => hm n (List.mem_cons_of_mem m hn)

lemma length_accepted (e : Emulator σ γ) (as : List (Action γ)) :
    (collect accepted e as).length ≤ (as.filterMap Action.message).length := by
  induction as generalizing e with
  | nil => exact Nat.le_refl 0
  | cons a as ih =>
    have hr := ih (e.act a)
    rw [collect, List.length_append]
    cases hm : a.message with
    | none =>
      rw [accepted_of_none hm, List.filterMap_cons_none hm, List.length_nil, Nat.zero_add]
      exact hr
    | some m =>
      rw [List.filterMap_cons_some hm, List.length_cons]
      obtain ⟨hn, -⟩ | ⟨hn, -⟩ := act_submission (e := e) hm <;>
        simp only [hn, List.length_nil, List.length_singleton] <;> omega

variable {e : Emulator σ γ} {as : List (Action γ)}

lemma frame_takes_all (hl : e.mailbox.pending.length ≤ e.batchLimit)
    (hs : ∀ m ∈ e.mailbox.pending, m.isStop = false) :
    e.applied .frame = e.mailbox.pending ∧ e.frame.2.batchLimit = e.batchLimit ∧
      e.frame.2.mailbox = { e.mailbox with pending := [] } := by
  have hd : Mailbox.due e.batchLimit e.mailbox.pending = e.mailbox.pending.length := by
    rw [Mailbox.due, List.findIdx_eq_length.2 hs]
    omega
  obtain ⟨hb, hn⟩ := frame_pending e
  rw [hd, List.drop_length] at hb
  exact ⟨by rw [applied_frame, hd, List.take_length], hn, hb⟩

lemma frames_idle (hq : e.mailbox.pending = []) (n : Nat) :
    collect applied e (List.replicate n .frame) = [] ∧ SameInbox e (e.run (List.replicate n .frame)) := by
  induction n generalizing e with
  | zero => exact ⟨rfl, rfl, rfl⟩
  | succ n ih =>
    obtain ⟨ha, hl, hb⟩ := frame_takes_all (e := e) (by simp [hq]) (by simp [hq])
    have hs : SameInbox e e.frame.2 := ⟨by rw [hb, ← hq], hl⟩
    obtain ⟨hn, hs'⟩ := ih (e := e.frame.2) (by rw [hs.1, hq])
    refine ⟨?_, hs.trans hs'⟩
    rw [List.replicate_succ, collect, ha, hq]
    exact hn

lemma send_of_pending_nil {m : Message γ} (hm : m.validate = .ok ()) (hq : e.mailbox.pending = [])
    (hc : 1 ≤ e.mailbox.capacity) : e.act (.send m) = { e with mailbox := e.mailbox.post m } := by
  have hroom : e.mailbox.isFull = false := by
    simp only [Mailbox.isFull, hq, List.length_nil, decide_eq_false_iff_not]
    omega
  simp only [act, Link.send, Link.trySend, hm, hroom]
  rfl

lemma send_then_frame {m : Message γ} (hm : m.validate = .ok ()) (hs : m.isStop = false)
    (hq : e.mailbox.pending = []) (hl : 1 ≤ e.batchLimit) (hc : 1 ≤ e.mailbox.capacity) :
    (e.act (.send m)).applied .frame = [m] ∧ SameInbox e (e.act (.send m)).frame.2 := by
  rw [send_of_pending_nil hm hq hc]
  have hp : (e.mailbox.post m).pending = [m] := by simp [Mailbox.post, hq]
  obtain ⟨ha, hn, hb⟩ := frame_takes_all (e := { e with mailbox := e.mailbox.post m })
    (by simpa [hp] using hl) (by simp [hp, hs])
  refine ⟨ha.trans hp, hb.trans ?_, hn⟩
  rw [← hq]
  rfl

/-- The messages of a run have all been applied once the next frame has drained the mailbox. -/
def Drained (e : Emulator σ γ) (as : List (Action γ)) : Prop :=
  collect applied e (as ++ [.frame]) = as.filterMap Action.message

instance [DecidableEq γ] (e : Emulator σ γ) (as : List (Action γ)) : Decidable (Drained e as) :=
  inferInstanceAs (Decidable (_ = _))

lemma Drained.applied (hd : Drained e as) :
    collect Emulator.applied e as ++ (e.run as).applied .frame = as.filterMap Action.message := by
  rw [← hd, collect_append]
  exact congrArg (_ ++ ·) (List.append_nil _).symm

lemma Drained.paused (ha : ∀ a ∈ as, a.Remote) (hd : Drained e as) :
    (e.run as).drain.paused = (as.filterMap Action.message).foldl Message.pausedAfter e.paused := by
  rw [paused_drain, paused_run ha, ← List.foldl_append, hd.applied]

lemma Drained.mailbox (hq : e.mailbox.pending = []) (hc : 1 ≤ e.mailbox.capacity) (hd : Drained e as) :
    (e.run as).frame.2.mailbox = { e.mailbox with pending := [] } := by
  have hf : e.run (as ++ [.frame]) = (e.run as).frame.2 := run_append e as [.frame]
  have hb : Bounded { queueCapacity := e.mailbox.capacity, messagesPerFrame := e.batchLimit } e := by
    refine ⟨(Nat.max_eq_left hc).symm, rfl, ?_⟩
    rw [hq]
    exact Nat.zero_le _
  have hp : (e.run (as ++ [.frame])).mailbox.pending = [] := by
    have hcons := congrArg List.length (run_conserves e (as ++ [.frame]))
    have hle := length_accepted e (as ++ [.frame])
    rw [hd, hq, List.nil_append, List.length_append] at hcons
    rw [List.filterMap_append, List.filterMap_cons_none rfl, List.filterMap_nil, List.append_nil] at hle
    exact List.eq_nil_of_length_eq_zero (by omega)
  have hcap : (e.run (as ++ [.frame])).mailbox.capacity = e.mailbox.capacity :=
    (hb.run (as ++ [.frame])).capacity.trans hb.capacity.symm
  rw [← hf]
  exact congr (congrArg Mailbox.mk hcap) hp

/-- A program that runs with nobody to listen and nothing in the mailbox. -/
def alone (rom : List UInt8) : Emulator Silence Unit :=
  let first : Emulator Silence Unit := create .standard Silence.mk {} (Vector.replicate 8 0)
  { first with paused := false, mailbox := { capacity := 4 } }.act (.operate (.swapRom rom))

end Emulator

end Chip8
