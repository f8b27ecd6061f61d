import Chip8.Proofs.Emulator.Recorder
import Chip8.Proofs.Emulator.Resting
import Chip8.Proofs.Emulator.Rounds
import Mathlib.Data.List.Induction
import Mathlib.Tactic.MkIffOfInductiveProp

/-! A pause is invisible to the program. While time stands still frames only show the screen, so that a program which
is paused for some frames, and perhaps edited in between, goes on as if all had been done between two frames. -/

namespace Chip8

/-- A screen with its first pixel lit is shown. -/
def Event.isLit {γ : Type} : Event γ → Bool
  | .draw _ screen => screen.pixel 0 0
  | _ => false

namespace Emulator

variable {σ γ : Type}

def interrupted (as : List (Action γ)) : List (Action γ) := .send .pause :: as ++ [.send .resume]

def submissions (as : List (Action γ)) : List (Action γ) := as.filter fun a => !a.isFrame

variable [Host σ γ]

/-- Emulators that have the same in them, though the host of the second was shown `n` frames more. -/
structure ShownMore (h : σ) (n : Nat) (e f : Emulator σ γ) : Prop where
  machine : f.machine = e.machine
  rom : f.rom = e.rom
  ipf : f.ipf = e.ipf
  batchLimit : f.batchLimit = e.batchLimit
  paused : f.paused = e.paused
  halt : f.halt = e.halt
  mailbox : f.mailbox = e.mailbox
  drawCount : f.drawCount = e.drawCount + n
  host : Told h e.host f.host

/-- The frame after `bs` and the frame after a pause with `as` in it come to the same. -/
structure Unseen (e : Emulator σ γ) (as bs : List (Action γ)) : Prop where
  outcomes : collect outcomes e (interrupted as) = List.replicate (as.countP Action.isFrame) .paused
  attempted : collect attempted e (interrupted as) = []
  outcome : (e.run (interrupted as)).frame.1 = (e.run bs).frame.1
  final : ShownMore e.host (as.countP Action.isFrame) (e.run bs).frame.2 (e.run (interrupted as)).frame.2

/-- Nothing keeps the next frame from executing instructions, and there is room for a message. -/
@[mk_iff]
structure Ready (e : Emulator σ γ) : Prop where
  paused : e.paused = false
  halt : e.halt = none
  pending : e.mailbox.pending = []
  limit : 1 ≤ e.batchLimit
  capacity : 1 ≤ e.mailbox.capacity

instance (e : Emulator σ γ) : Decidable (Ready e) := decidable_of_iff _ (ready_iff e).symm

variable {e f : Emulator σ γ} {as : List (Action γ)}

lemma Twins.shownMore {h : σ} {n : Nat} (t : Twins (Told h) 0 n e f) : ShownMore h n e f := by
  have hc : f.machine.cycles = e.machine.cycles := by
    have hc := t.cycles
    omega
  have hm : f.machine = e.machine := by
    rw [t.machine, hc]
    rfl
  have hd : f.drawCount = e.drawCount + n := by
    have hd := t.drawCount
    omega
  exact ⟨hm, t.rom, t.ipf, t.batchLimit, t.paused, t.halt, t.mailbox, hd, t.host⟩

omit [Host σ γ] in
lemma filterMap_submissions (as : List (Action γ)) :
    (submissions as).filterMap Action.message = as.filterMap Action.message := by
  induction as with
  | nil => rfl
  | cons a as ih =>
    cases a with
    | frame => exact ih
    | trySend m | send m => exact congrArg (m :: ·) ih
    | _ => exact ih

omit [Host σ γ] in
lemma isEdit_of_mem (ha : ∀ a ∈ as, a.Interlude) : ∀ m ∈ as.filterMap Action.message, m.isEdit := by
  intro m hm
  obtain ⟨a, hmem, hma⟩ := List.mem_filterMap.1 hm
  cases a with
  | trySend n | send n =>
    cases hma
    exact ha _ hmem
  | _ => cases hma

lemma run_submissions (ha : ∀ a ∈ as, a.Interlude) (e : Emulator σ γ) :
    collect applied e (submissions as) = [] ∧ ∃ b, e.run (submissions as) = { e with mailbox := b } := by
  induction as generalizing e with
  | nil => exact ⟨rfl, e.mailbox, rfl⟩
  | cons a as ih =>
    have hrest : ∀ b ∈ as, b.Interlude := fun b hb => ha b (List.mem_cons_of_mem a hb)
    obtain ⟨hn, b, hb⟩ := ih hrest (e.act a)
    have hkeep {m : Message γ} (hm : a.message = some m) :
        { e.act a with mailbox := b } = { e with mailbox := b } := by
      obtain ⟨-, -, hs⟩ | ⟨-, hs⟩ := act_submission (e := e) hm <;> rw [hs]
    cases a with
    | frame => exact ih hrest e
    | trySend m | send m =>
      exact ⟨hn, b, hb.trans (hkeep rfl)⟩
    | _ => exact (ha _ List.mem_cons_self).elim

lemma drain_submissions (ha : ∀ a ∈ as, a.Interlude) (hs : Drained e (submissions as)) :
    ∃ b, (e.run (submissions as)).drain = (as.filterMap Action.message).foldl apply { e with mailbox := b } := by
  obtain ⟨hnone, b, hb⟩ := run_submissions ha e
  have happlied : (e.run (submissions as)).applied .frame = as.filterMap Action.message := by
    rw [← filterMap_submissions, ← hs.applied, hnone]
    rfl
  refine ⟨{ b with pending := (Mailbox.batch e.batchLimit b.pending).2 }, ?_⟩
  rw [drain_eq_foldl, happlied, hb]

lemma Ready.resting (r : Ready e) (b : Mailbox γ) :
    Resting e.host 0 { e with mailbox := b } (e.act (.send .pause)) := by
  rw [send_of_pending_nil rfl r.pending r.capacity]
  refine ⟨⟨rfl, ?_, ?_, rfl, rfl, rfl, rfl, expectant_refl e.host⟩, r.halt, r.limit, ?_, Or.inr ?_⟩
  · simp
  · simp
  · intro m hm
    simp only [Mailbox.post, r.pending, List.nil_append, List.mem_singleton] at hm
    exact Or.inl hm
  · simp only [Mailbox.post, r.pending]
    rfl

omit [Host σ γ] in
lemma filterMap_interrupted (as : List (Action γ)) :
    (interrupted as).filterMap Action.message = .pause :: as.filterMap Action.message ++ [.resume] :=
  List.filterMap_append

omit [Host σ γ] in
lemma mem_interrupted (ha : ∀ a ∈ as, a.Interlude) :
    ∀ m ∈ (interrupted as).filterMap Action.message, m = .pause ∨ m = .resume ∨ m.isEdit := by
  intro m hm
  rw [filterMap_interrupted] at hm
  rcases List.mem_append.1 hm with hm | hm
  · rcases List.mem_cons.1 hm with rfl | hm
    · exact Or.inl rfl
    · exact Or.inr (Or.inr (isEdit_of_mem ha m hm))
  · exact Or.inr (Or.inl (List.mem_singleton.1 hm))

omit [Host σ γ] in
lemma edits_interrupted (ha : ∀ a ∈ as, a.Interlude) :
    ((interrupted as).filterMap Action.message).filter Message.isEdit = as.filterMap Action.message := by
  rw [filterMap_interrupted, List.filter_append, List.filter_cons_of_neg Bool.false_ne_true,
    List.filter_eq_self.2 (isEdit_of_mem ha)]
  exact List.append_nil _

omit [Host σ γ] in
lemma remote_interrupted (ha : ∀ a ∈ as, a.Interlude) : ∀ a ∈ interrupted as, a.Remote := by
  intro a hm
  rcases List.mem_append.1 hm with hm | hm
  · rcases List.mem_cons.1 hm with rfl | hm
    · trivial
    · exact (ha a hm).remote
  · rw [List.mem_singleton.1 hm]
    trivial

omit [Host σ γ] in
lemma pausedAfter_interrupted (as : List (Action γ)) (p : Bool) :
    ((interrupted as).filterMap Action.message).foldl Message.pausedAfter p = false := by
  rw [filterMap_interrupted, List.foldl_append]
  rfl

lemma run_interrupted (e : Emulator σ γ) (as : List (Action γ)) :
    e.run (interrupted as) = ((e.act (.send .pause)).run as).act (.send .resume) :=
  run_append (e.act (.send .pause)) as [.send .resume]

lemma collect_interrupted {α : Type} {f : Emulator σ γ → Action γ → List α} (hf : ∀ e m, f e (.send m) = [])
    (e : Emulator σ γ) (as : List (Action γ)) :
    collect f e (interrupted as) = collect f (e.act (.send .pause)) as := by
  rw [interrupted, List.cons_append, collect, hf, collect_append, collect, hf]
  exact List.append_nil _

lemma Ready.drains (r : Ready e) (ha : ∀ a ∈ as, a.Interlude)
    (hp : Drained e (interrupted as)) (hs : Drained e (submissions as)) :
    Alike (Expectant e.host) 0 (as.countP Action.isFrame) (e.run (submissions as)).drain
      (e.run (interrupted as)).drain := by
  obtain ⟨b, hb⟩ := drain_submissions ha hs
  have hall : collect applied (e.act (.send .pause)) as ++ (e.run (interrupted as)).applied .frame =
      (interrupted as).filterMap Action.message := by
    rw [← hp.applied, collect_interrupted fun _ _ => rfl]
  have hlast : ∀ m ∈ (e.run (interrupted as)).applied .frame, m = .pause ∨ m = .resume ∨ m.isEdit :=
    fun m hm => mem_interrupted ha m (hall ▸ List.mem_append_right _ hm)
  -- The edits do not look at the mailbox, so that the one the direct run is left with may stand in from the start.
  have hrest := r.resting b
  obtain ⟨-, -, hrun⟩ := hrest.run ha
  have hresume := submission_keeps (P := Alike _ _ _ _) (a := .send .resume) (fun _ _ h => h.setControl ..) rfl
    hrun.alike
  rw [← run_interrupted] at hresume
  have hdrain := hresume.drain_right hlast
  rw [← List.foldl_append, ← List.filter_append, hall, edits_interrupted ha, Int.zero_add] at hdrain
  rw [hb]
  exact hdrain

lemma Ready.unseen (r : Ready e) (hh : Heedless e.host) (ha : ∀ a ∈ as, a.Interlude)
    (hp : Drained e (interrupted as)) (hs : Drained e (submissions as)) : Unseen e as (submissions as) := by
  obtain ⟨ho, hx, -⟩ := (r.resting e.mailbox).run ha
  have hdrain := r.drains ha hp hs
  have hpaused : (e.run (interrupted as)).drain.paused = (e.run (submissions as)).drain.paused := by
    have hremote : ∀ a ∈ submissions as, a.Remote := fun a hm => (ha a (List.mem_filter.1 hm).1).remote
    rw [hp.paused (remote_interrupted ha), pausedAfter_interrupted, hs.paused hremote, filterMap_submissions,
      Message.foldl_pausedAfter_edits (isEdit_of_mem ha), r.paused]
  have hmail : (e.run (interrupted as)).frame.2.mailbox = (e.run (submissions as)).frame.2.mailbox :=
    (hp.mailbox r.pending r.capacity).trans (hs.mailbox r.pending r.capacity).symm
  have hhalt : (e.run (submissions as)).drain.halt = none := by
    obtain ⟨b, hb⟩ := drain_submissions ha hs
    rw [hb]
    exact halt_foldl r.halt fun m hm => Message.not_isStop_of_isEdit (isEdit_of_mem ha m hm)
  -- What the host was shown in the pause may be another screen, but both runs go on by showing it the same one.
  obtain ⟨hout, hfin⟩ := hdrain.perform_of_none (expectant_shown e.host) hh.accord hpaused hhalt
  refine ⟨?_, ?_, hout, Twins.shownMore ⟨hfin.setControl .., ?_, hmail⟩⟩
  · rw [collect_interrupted fun _ _ => rfl, ho]
  · rw [collect_interrupted fun _ _ => rfl, hx]
  · exact (sameControls_perform _).paused.trans (hpaused.trans (sameControls_perform _).paused.symm)

omit [Host σ γ] in
lemma messages_frames (n : Nat) : (List.replicate n (Action.frame : Action γ)).filterMap Action.message = [] :=
  List.filterMap_replicate_of_none rfl

lemma Ready.drained_frames (r : Ready e) {n : Nat} (hn : 1 ≤ n) :
    Drained e (interrupted (List.replicate n .frame)) := by
  obtain ⟨k, rfl⟩ := Nat.exists_eq_add_one.2 hn
  obtain ⟨hpause, hs⟩ := send_then_frame (m := .pause) rfl rfl r.pending r.limit r.capacity
  obtain ⟨hidle, hs'⟩ := frames_idle (e := (e.act (.send .pause)).frame.2) (hs.1 ▸ r.pending) k
  obtain ⟨hb, hl⟩ := hs.trans hs'
  obtain ⟨hresume, -⟩ := send_then_frame (m := .resume) rfl rfl (hb ▸ r.pending) (hl ▸ r.limit) (hb ▸ r.capacity)
  have hlast : collect applied (((e.act (.send .pause)).run (.frame :: List.replicate k .frame)).act
      (.send .resume)) [.frame] = [.resume] := congrArg (· ++ []) hresume
  rw [Drained, collect_append, collect_interrupted fun _ _ => rfl, run_interrupted, filterMap_interrupted,
    messages_frames, List.replicate_succ, collect, hpause, hlast]
  exact congrArg ([.pause] ++ · ++ [.resume]) hidle

omit [Host σ γ] in
lemma submissions_frames (n : Nat) : submissions (List.replicate n (Action.frame : Action γ)) = [] :=
  List.filter_replicate_of_neg (by simp [Action.isFrame])

theorem pause_invisible (r : Ready e) (hh : Heedless e.host) :
    (∀ n, 1 ≤ n → Unseen e (List.replicate n .frame) []) ∧
      ∀ as : List (Action γ), (∀ a ∈ as, a.Interlude) → Drained e (interrupted as) →
        Drained e (submissions as) → Unseen e as (submissions as) := by
  refine ⟨fun n hn => ?_, fun as ha => r.unseen hh ha⟩
  have ha : ∀ a ∈ List.replicate n (Action.frame : Action γ), a.Interlude := by
    intro a hm
    rw [List.eq_of_mem_replicate hm]
    trivial
  have hs : Drained e (submissions (List.replicate n .frame)) := by
    rw [submissions_frames]
    exact (frames_idle r.pending 1).1
  have hu := r.unseen hh ha (r.drained_frames hn) hs
  rwa [submissions_frames] at hu

/-- A host that stops the emulator as long as the first pixel is lit of the screen that it was shown last. -/
structure Viewer where
  lit : Bool := false

instance : Host Viewer Unit where
  notify v
    | .draw _ screen => { lit := screen.pixel 0 0 }
    | _ => v
  stopsAt v _ _ _ := v.lit

lemma lit_foldl (v : Viewer) (events : List (Event Unit)) :
    (events.foldl Host.notify v).lit = ((Event.digest events).find? Event.isDraw).elim v.lit Event.isLit := by
  induction events using List.reverseRecOn with
  | nil => rfl
  | append_singleton events event ih =>
    rw [List.foldl_append, Event.digest_concat]
    cases event with
    | draw n screen => rfl
    | _ => exact ih

lemma heedless_viewer (v : Viewer) : Heedless v := by
  intro xs ys hxy pc opcode m n
  have hl : (ys.foldl Host.notify v).lit = (xs.foldl Host.notify v).lit := by rw [lit_foldl, lit_foldl, hxy]
  exact hl

/-- Keys, speed, memory and program change during a pause of three frames. -/
theorem pause_invisible_editing :
    let e : Emulator Viewer Unit := { alone [0x71, 0x01, 0x12, 0x00] with host := {} }
    let as : List (Action Unit) := [.frame, .trySend (.setKey 3 false), .send (.setIpf 2), .frame,
      .send (.swapRom [0x60, 0x05, 0x12, 0x00]), .frame, .trySend (.setMemory 0x300 [7])]
    Ready e ∧ Heedless e.host ∧ (∀ a ∈ as, a.Interlude) ∧ Drained e (interrupted as) ∧
      Drained e (submissions as) ∧ Unseen e [.frame, .frame] [] ∧ Unseen e as (submissions as) := by
  intro e as
  have hr : Ready e := by decide +kernel
  have hh : Heedless e.host := heedless_viewer _
  have ha : ∀ a ∈ as, a.Interlude := by decide
  have hp : Drained e (interrupted as) := by decide +kernel
  have hs : Drained e (submissions as) := by decide +kernel
  obtain ⟨hplain, hedits⟩ := pause_invisible hr hh
  exact ⟨hr, hh, ha, hp, hs, hplain 2 (by decide), hedits as ha hp hs⟩

/-- A host that stops the emulator once it was told often enough of what it heeds. -/
structure Tally (heeds : Event Unit → Bool) (limit : Nat) where
  count : Nat := 0

variable {heeds : Event Unit → Bool} {limit : Nat}

instance : Host (Tally heeds limit) Unit where
  notify t event := { count := t.count + if heeds event then 1 else 0 }
  stopsAt t _ _ _ := decide (limit ≤ t.count)

lemma count_foldl (t : Tally heeds limit) (events : List (Event Unit)) :
    (events.foldl Host.notify t).count = t.count + events.countP heeds := by
  induction events generalizing t with
  | nil => rfl
  | cons event events ih =>
    rw [List.foldl_cons, ih, List.countP_cons]
    exact (Nat.add_right_comm ..).trans (Nat.add_assoc ..)

lemma undated_tally (hh : ∀ event, heeds (Event.redate 0 event) = heeds event) (t : Tally heeds limit) :
    Undated t := by
  have hcount (events : List (Event Unit)) : (events.map (Event.redate 0)).countP heeds = events.countP heeds := by
    rw [List.countP_map]
    exact congrArg (events.countP ·) (funext hh)
  intro xs ys hxy pc opcode m n
  have hc : (ys.foldl Host.notify t).count = (xs.foldl Host.notify t).count := by
    rw [count_foldl, count_foldl, ← hcount xs, hxy, hcount ys]
  simp only [Host.stopsAt, hc]

/-- A program after its first frame, of which the host keeps count. -/
def counted (heeds : Event Unit → Bool) (limit : Nat) (rom : List UInt8) : Emulator (Tally heeds limit) Unit :=
  (create .standard {} { ipf := 4 } (Vector.replicate 8 0)).run [.send (.swapRom rom), .send .resume, .frame]

/-- The host stops the frame behind the pause, but not the frame without the pause. -/
@[mk_iff]
structure Noticed (e : Emulator σ γ) (as : List (Action γ)) : Prop where
  ready : Ready e
  interlude : ∀ a ∈ as, a.Interlude
  drained : Drained e (interrupted as)
  drained_direct : Drained e (submissions as)
  direct : (e.run (submissions as)).frame.1 = .running
  behind : (e.run (interrupted as)).frame.1 = .halted

instance [DecidableEq γ] (e : Emulator σ γ) (as : List (Action γ)) : Decidable (Noticed e as) :=
  decidable_of_iff _ (noticed_iff e as).symm

/-- None of the hosts looks at a draw count. The first hears the tone stop and start again, the second counts what it is
shown, and the third recalls a screen that a new program would have cleared before it was shown. -/
theorem pause_noticed :
    let tones := counted (fun event => event.toTone.isSome) 3 [0x60, 0xC8, 0xF0, 0x18, 0x12, 0x04]
    let draws := counted Event.isDraw 3 [0x12, 0x00]
    let screens := counted Event.isLit 1 [0xD0, 0x05, 0x12, 0x02]
    (Undated tones.host ∧ Noticed tones [.frame]) ∧ (Undated draws.host ∧ Noticed draws [.frame]) ∧
      Undated screens.host ∧ Noticed screens [.frame, .send (.swapRom [0x12, 0x00])] := by
  intro tones draws screens
  have htones : Undated tones.host := undated_tally (by rintro (_ | _) <;> rfl) _
  have hdraws : Undated draws.host := undated_tally (by rintro (_ | _) <;> rfl) _
  have hscreens : Undated screens.host := undated_tally (by rintro (_ | _) <;> rfl) _
  exact ⟨⟨htones, by decide +kernel⟩, ⟨hdraws, by decide +kernel⟩, hscreens, by decide +kernel⟩

end Emulator

end Chip8
