import Chip8.Proofs.Emulator.Twins

/-! An emulator in a pause. Frames only show the screen, and edits wait or are applied as they would be outside of it. -/

namespace Chip8

variable {σ γ : Type}

def Message.isEdit : Message γ → Bool
  | .swapRom _ | .setIpf _ | .setMemory _ _ | .setKey _ _ => true
  | _ => false

def Action.isFrame : Action γ → Bool
  | .frame => true
  | _ => false

/-- A frame, or the submission of an edit. -/
def Action.Interlude : Action γ → Prop
  | .frame => True
  | .trySend m | .send m => m.isEdit
  | _ => False

instance : DecidablePred (Action.Interlude : Action γ → Prop)
  | .frame => isTrue trivial
  | .trySend m | .send m => inferInstanceAs (Decidable (m.isEdit = true))
  | .cycle | .reset | .execute _ | .operate _ => isFalse id

lemma Action.Interlude.remote {a : Action γ} (h : a.Interlude) : a.Remote := by
  cases a with
  | trySend m | send m | frame => trivial
  | _ => exact h

namespace Message

lemma not_isStop_of_isEdit {m : Message γ} (h : m.isEdit) : m.isStop = false := by
  cases m with
  | stop => cases h
  | _ => rfl

lemma pausedAfter_of_isEdit {m : Message γ} (h : m.isEdit) (p : Bool) : m.pausedAfter p = p := by
  cases m with
  | pause | resume => cases h
  | _ => rfl

lemma foldl_pausedAfter_edits {ms : List (Message γ)} (h : ∀ m ∈ ms, m.isEdit) (p : Bool) :
    ms.foldl pausedAfter p = p :=
  foldl_pausedAfter_of_forall fun m hm => pausedAfter_of_isEdit (h m hm) p

lemma foldl_pausedAfter_true {ms : List (Message γ)} (h : ∀ m ∈ ms, m = .pause ∨ m.isEdit) :
    ms.foldl pausedAfter true = true := by
  refine foldl_pausedAfter_of_forall fun m hm => ?_
  rcases h m hm with rfl | hm
  · rfl
  · exact pausedAfter_of_isEdit hm true

end Message

namespace Emulator

variable [Host σ γ]

section

variable {h : σ} {c d : Int} {e f : Emulator σ γ}

lemma Alike.sound_right (a : Alike (Expectant h) c d e f) (t : Option Tone) : Alike (Expectant h) c d e (f.sound t) := by
  cases t with
  | none => exact a
  | some t =>
    exact ⟨a.machine, a.cycles, a.drawCount, a.rom, a.ipf, a.batchLimit, a.halt, a.host.right fun _ => rfl⟩

lemma Alike.announce_right (a : Alike (Expectant h) c d e f) : Alike (Expectant h) c (d + 1) e f.announce := by
  have hd : (f.announce.drawCount : Int) = e.drawCount + (d + 1) := by
    have hd := a.drawCount
    simp only [Emulator.announce, Emulator.notify]
    omega
  exact ⟨a.machine, a.cycles, hd, a.rom, a.ipf, a.batchLimit, a.halt, a.host.right fun _ => rfl⟩

lemma Alike.pause_right (a : Alike (Expectant h) c d e f) : Alike (Expectant h) c d e f.pause := by
  cases hp : f.paused with
  | true => simpa [pause, hp] using a
  | false =>
    have hs := (a.setControl e.paused true e.meter f.meter.pause e.mailbox f.mailbox e.published
      f.published).sound_right f.machine.sound.pause
    simpa [pause, hp] using hs

lemma Alike.resume_right (a : Alike (Expectant h) c d e f) : Alike (Expectant h) c d e f.resume := by
  cases hp : f.paused with
  | true =>
    have hs := (a.setControl e.paused false e.meter f.meter.resume e.mailbox f.mailbox e.published
      f.published).sound_right f.machine.sound.resume
    simpa [resume, hp] using hs
  | false => simpa [resume, hp] using a

lemma Alike.foldl_right {ms : List (Message γ)}
    (hm : ∀ m ∈ ms, m = .pause ∨ m = .resume ∨ m.isEdit) (a : Alike (Expectant h) c d e f) :
    Alike (Expectant h) c d ((ms.filter Message.isEdit).foldl Emulator.apply e) (ms.foldl Emulator.apply f) := by
  induction ms generalizing e f with
  | nil => exact a
  | cons m ms ih =>
    have hrest : ∀ n ∈ ms, n = .pause ∨ n = .resume ∨ n.isEdit := fun n hn => hm n (List.mem_cons_of_mem m hn)
    rcases hm m List.mem_cons_self with rfl | rfl | hi
    · exact ih hrest a.pause_right
    · exact ih hrest a.resume_right
    · rw [List.filter_cons_of_pos hi]
      refine ih hrest (a.operate (expectant_tuned h) ?_ ?_)
      · rintro (rfl | rfl) <;> cases hi
      · rintro payload rfl
        cases hi

lemma Alike.drain_right (hm : ∀ m ∈ f.applied .frame, m = .pause ∨ m = .resume ∨ m.isEdit)
    (a : Alike (Expectant h) c d e f) :
    Alike (Expectant h) c d (((f.applied .frame).filter Message.isEdit).foldl Emulator.apply e) f.drain := by
  rw [drain_eq_foldl]
  exact (a.setControl ..).foldl_right hm

end

/-- Between two frames of a pause `f` is paused or is about to be. It is `e` that the edits so far were applied to. -/
structure Resting (h : σ) (d : Int) (e f : Emulator σ γ) : Prop where
  alike : Alike (Expectant h) 0 d e f
  halt : f.halt = none
  limit : 1 ≤ f.batchLimit
  waiting : ∀ m ∈ f.mailbox.pending, m = .pause ∨ m.isEdit
  paused : f.paused = true ∨ f.mailbox.pending.head? = some .pause

variable {h : σ} {d : Int} {e f : Emulator σ γ}

namespace Resting

lemma applied_waiting (r : Resting h d e f) : ∀ m ∈ f.applied .frame, m = .pause ∨ m.isEdit :=
  fun m hm => r.waiting m (mem_pending_of_applied hm)

lemma drain_paused (r : Resting h d e f) : f.drain.paused = true := by
  have ha := r.applied_waiting
  rw [paused_drain]
  rcases r.paused with hp | hp
  · rw [hp]
    exact Message.foldl_pausedAfter_true ha
  · -- The pause is still in the mailbox, and this frame takes at least one message.
    obtain ⟨ms, hms⟩ : ∃ ms, f.mailbox.pending = .pause :: ms := List.head?_eq_some_iff.1 hp
    obtain ⟨n, hn⟩ : ∃ n, Mailbox.due f.batchLimit f.mailbox.pending = n + 1 := by
      have hl := r.limit
      refine Nat.exists_eq_add_one.2 ?_
      simp only [Mailbox.due, hms, List.length_cons]
      omega
    rw [applied_frame, hn, hms, List.take_succ_cons] at ha ⊢
    exact Message.foldl_pausedAfter_true fun m hm => ha m (List.mem_cons_of_mem _ hm)

lemma frame (r : Resting h d e f) :
    f.frame.1 = .paused ∧ f.drain.performed = [] ∧
      Resting h (d + 1) (((f.applied .frame).filter Message.isEdit).foldl apply e) f.frame.2 := by
  have hp := r.drain_paused
  have hd : f.drain.halt = none := by
    rw [drain_eq_foldl]
    refine halt_foldl r.halt fun m hm => ?_
    rcases r.applied_waiting m hm with rfl | hi
    · rfl
    · exact Message.not_isStop_of_isEdit hi
  have hf : f.frame = (.paused, f.drain.announce.publish) := by
    rw [Emulator.frame, perform_of_paused hd hp]
  have ha := (r.alike.drain_right fun m hm => (r.applied_waiting m hm).imp_right .inr).announce_right
  obtain ⟨hb, hl⟩ := frame_pending f
  refine ⟨congrArg Prod.fst hf, if_neg fun hc => ?_, ?_, ?_, ?_, ?_, ?_⟩
  · rw [hp] at hc
    cases hc.2
  · rw [hf]
    exact ha.setControl ..
  · rw [hf]
    exact hd
  · rw [hl]
    exact r.limit
  · rw [hb]
    exact fun m hm => r.waiting m (List.mem_of_mem_drop hm)
  · rw [hf]
    exact Or.inl hp

lemma submit {a : Action γ} {m : Message γ} (ha : a.message = some m) (hm : m.isEdit) (r : Resting h d e f) :
    Resting h d e (f.act a) := by
  obtain ⟨-, -, hn⟩ | ⟨-, hn⟩ := act_submission (e := f) ha
  · rw [hn]
    refine ⟨r.alike.setControl .., r.halt, r.limit, ?_, ?_⟩
    · intro n hn
      rcases List.mem_append.1 hn with hn | hn
      · exact r.waiting n hn
      · rw [List.mem_singleton.1 hn]
        exact Or.inr hm
    · refine r.paused.imp_right fun hp => ?_
      obtain ⟨ms, hms⟩ := List.head?_eq_some_iff.1 hp
      simp [Mailbox.post, hms]
  · rw [hn]
    exact r

lemma act {a : Action γ} (ha : a.Interlude) (r : Resting h d e f) :
    f.outcomes a = List.replicate ([a].countP Action.isFrame) .paused ∧ f.attempted a = [] ∧
      Resting h (d + [a].countP Action.isFrame)
        (((f.applied a).filter Message.isEdit).foldl Emulator.apply e) (f.act a) := by
  cases a with
  | trySend m | send m => exact ⟨rfl, rfl, by simpa [Action.isFrame, applied] using r.submit rfl ha⟩
  | frame =>
    obtain ⟨ho, hp, hn⟩ := r.frame
    exact ⟨congrArg ([·]) ho, hp, hn⟩
  | _ => exact ha.elim

lemma run {as : List (Action γ)} (ha : ∀ a ∈ as, a.Interlude) (r : Resting h d e f) :
    collect Emulator.outcomes f as = List.replicate (as.countP Action.isFrame) .paused ∧
      collect attempted f as = [] ∧
      Resting h (d + as.countP Action.isFrame)
        (((collect applied f as).filter Message.isEdit).foldl Emulator.apply e) (f.run as) := by
  induction as generalizing d e f with
  | nil => exact ⟨rfl, rfl, by simpa [collect, Emulator.run] using r⟩
  | cons a as ih =>
    obtain ⟨ho, hp, hn⟩ := r.act (ha a List.mem_cons_self)
    obtain ⟨hos, hps, hns⟩ := ih (fun b hb => ha b (List.mem_cons_of_mem a hb)) hn
    have hc : (a :: as).countP Action.isFrame = [a].countP Action.isFrame + as.countP Action.isFrame :=
      @List.countP_append _ _ [a] as
    refine ⟨?_, ?_, ?_⟩
    · rw [collect, ho, hos, hc, List.replicate_append_replicate]
    · rw [collect, hp, hps]
      rfl
    · rw [collect, List.filter_append, List.foldl_append, hc, Int.natCast_add, ← Int.add_assoc]
      exact hns

end Resting

end Emulator

end Chip8
