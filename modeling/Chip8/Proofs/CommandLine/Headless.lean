import Chip8.CommandLine.Headless
import Chip8.Proofs.Emulator.Termination

/-! Runs with and without a number of frames. Nobody can stop a program that runs from the command line, so that only
a failure of its own ends it, and a number of frames that is large enough comes to the same failure. -/

namespace Chip8

namespace Emulator

variable {σ γ : Type} [Host σ γ]

lemma apply_blank {e : Emulator σ γ} (m : Message γ) (h : e.machine.screen = .blank) :
    (e.apply m).machine.screen = .blank := by
  rw [(apply_applies e m).machine]
  cases m with
  | swapRom rom =>
    rw [Message.machineAfter]
    split
    · rfl
    · exact h
  | _ => exact h

lemma foldl_blank {e : Emulator σ γ} (ms : List (Message γ)) (h : e.machine.screen = .blank) :
    (ms.foldl apply e).machine.screen = .blank := by
  induction ms generalizing e with
  | nil => exact h
  | cons m ms ih => exact ih (apply_blank m h)

/-- A paused emulator with nothing on the screen, which no message in the mailbox resumes or stops. -/
structure Idle (e : Emulator σ γ) : Prop where
  paused : e.paused = true
  halt : e.halt = none
  screen : e.machine.screen = .blank
  waits : ∀ m ∈ e.mailbox.pending, m.pausedAfter true = true ∧ m.isStop = false

namespace Idle

variable {e : Emulator σ γ}

lemma frame (h : Idle e) : Idle e.frame.2 ∧ e.attempted .frame = [] ∧ e.frame.2.machine = e.drain.machine := by
  have ha : ∀ m ∈ e.applied .frame, m.pausedAfter true = true ∧ m.isStop = false :=
    fun m hm => h.waits m (mem_pending_of_applied hm)
  have hp : e.drain.paused = true := by
    rw [paused_drain, h.paused]
    exact Message.foldl_pausedAfter_of_forall fun m hm => (ha m hm).1
  have hh : e.drain.halt = none := by
    rw [drain_eq_foldl]
    exact halt_foldl h.halt fun m hm => (ha m hm).2
  have hs : e.drain.machine.screen = .blank := by
    rw [drain_eq_foldl]
    exact foldl_blank _ h.screen
  have hf : e.frame.2 = e.drain.announce.publish := by rw [Emulator.frame, perform_of_paused hh hp]
  refine ⟨⟨?_, ?_, ?_, fun m hm => h.waits m (mem_pending_of_frame hm)⟩, if_neg ?_, ?_⟩
  · rw [hf]
    exact hp
  · rw [hf]
    exact hh
  · rw [hf]
    exact hs
  · rintro ⟨-, hr⟩
    rw [hp] at hr
    cases hr
  · rw [hf]
    rfl

lemma frames (h : Idle e) (n : Nat) : Idle (e.run (List.replicate n .frame)) ∧
    e.runWithin n = (none, e.run (List.replicate n .frame)) ∧
      collect attempted e (List.replicate n .frame) = [] := by
  induction n generalizing e with
  | zero => exact ⟨h, rfl, rfl⟩
  | succ n ih =>
    obtain ⟨hnext, hx, -⟩ := h.frame
    obtain ⟨hi, hr, hxs⟩ := ih hnext
    refine ⟨hi, (runWithin_succ_of_going hnext.halt n).trans hr, ?_⟩
    rw [List.replicate_succ, collect, hx]
    exact hxs

lemma machine_frames (h : Idle e) (hq : e.mailbox.pending = []) (n : Nat) :
    (e.run (List.replicate n .frame)).machine = e.machine := by
  induction n generalizing e with
  | zero => rfl
  | succ n ih =>
    obtain ⟨hnext, -, hm⟩ := h.frame
    have hq' : e.frame.2.mailbox.pending = [] := by
      rw [(frame_pending e).1, hq]
      exact List.drop_nil
    rw [drain_of_pending_nil hq] at hm
    exact (ih hnext hq').trans hm

lemma machine_frames_succ (h : Idle e) (hl : e.mailbox.pending.length ≤ e.batchLimit) (n : Nat) :
    (e.run (List.replicate (n + 1) .frame)).machine = e.drain.machine := by
  obtain ⟨hnext, -, hm⟩ := h.frame
  obtain ⟨-, -, hb⟩ := frame_takes_all hl fun m hm => (h.waits m hm).2
  exact (hnext.machine_frames (congrArg Mailbox.pending hb) n).trans hm

end Idle

end Emulator

namespace CommandLine

open Emulator

namespace Headless

/-- The report of a run that goes on for as many frames as it takes. -/
inductive Ends : Headless → Report → Prop
  | final {e : Headless} {report : Report} : e.advance = .inl report → Ends e report
  | next {e f : Headless} {report : Report} : e.advance = .inr f → Ends f report → Ends e report

variable {e f t : Headless} {n : Nat} {report : Report} {error : Error} {r : Except Error Unit}

lemma advance_of_halt {halt : Halt} (hh : e.frame.2.halt = some halt) :
    e.advance = .inl (halt.result.map fun _ => e.frame.2.machine.screen.text) := by
  rw [advance, runWithin_succ_of_halt hh]
  cases halt <;> rfl

lemma advance_of_going (hh : e.frame.2.halt = none) : e.advance = .inr e.frame.2 := by
  rw [advance, runWithin_succ_of_going hh]
  rfl

lemma reportWithin_of_some (h : e.runWithin n = (some r, t)) :
    e.reportWithin n = some (r.map fun _ => t.machine.screen.text) := by
  rw [reportWithin, h]
  cases r <;> rfl

lemma run_of_reportWithin (h : e.reportWithin n = some report) :
    ∃ r t, e.runWithin n = (some r, t) ∧ report = r.map fun _ => t.machine.screen.text := by
  cases hrun : e.runWithin n with
  | mk r t =>
    cases r with
    | none =>
      rw [reportWithin, hrun] at h
      cases h
    | some r =>
      rw [reportWithin_of_some hrun] at h
      exact ⟨r, t, rfl, (Option.some.inj h).symm⟩

lemma reportWithin_succ (e : Headless) (n : Nat) :
    e.reportWithin (n + 1) = match e.advance with
      | .inl report => some report
      | .inr f => f.reportWithin n := by
  cases hh : e.frame.2.halt with
  | some halt => rw [advance_of_halt hh, reportWithin_of_some (runWithin_succ_of_halt hh n)]
  | none => simp only [advance_of_going hh, reportWithin, runWithin_succ_of_going hh]

lemma ends_iff : e.Ends report ↔ ∃ n, e.reportWithin n = some report := by
  constructor
  · intro h
    induction h with
    | final ha => exact ⟨1, by rw [reportWithin_succ, ha]⟩
    | next ha _ ih =>
      obtain ⟨n, hn⟩ := ih
      refine ⟨n + 1, ?_⟩
      rw [reportWithin_succ, ha]
      exact hn
  · rintro ⟨n, h⟩
    induction n generalizing e with
    | zero => cases h
    | succ n ih =>
      rw [reportWithin_succ] at h
      cases ha : e.advance with
      | inl report' =>
        rw [ha] at h
        cases h
        exact .final ha
      | inr f =>
        rw [ha] at h
        exact .next ha (ih h)

lemma Ends.of_error (h : e.runWithin n = (some (.error error), t)) : e.Ends report ↔ report = .error error := by
  constructor
  · intro hr
    obtain ⟨m, hm⟩ := ends_iff.1 hr
    obtain ⟨r, t', hrun, rfl⟩ := run_of_reportWithin hm
    -- Both runs come to their reports within the larger of the two numbers of frames.
    have hmax := runWithin_mono hrun (Nat.le_max_right n m)
    rw [runWithin_mono h (Nat.le_max_left n m)] at hmax
    cases hmax
    rfl
  · rintro rfl
    exact ends_iff.2 ⟨n, reportWithin_of_some h⟩

lemma reportAfter_eq_error_iff : e.reportAfter n = .error error ↔ (e.runWithin n).1 = some (.error error) := by
  rw [reportAfter]
  cases e.runWithin n with
  | mk r t =>
    cases r with
    | none => simp
    | some r => cases r <;> simp

/-- No stop waits in the mailbox, and only a failure may have halted the emulator. -/
structure Lone (e : Headless) : Prop where
  pending : ∀ m ∈ e.mailbox.pending, m.isStop = false
  failed : HaltsOnly (fun halt => ∃ error, halt = .fault error) e

lemma Lone.frame (h : Lone e) : Lone e.frame.2 := by
  refine ⟨fun m hm => h.pending m (mem_pending_of_frame hm), HaltsOnly.frame h.failed ?_ ?_ ?_⟩
  · intro m hm hs
    rw [h.pending m (mem_pending_of_applied hm)] at hs
    cases hs
  · -- Nobody listens, so that nobody stops the emulator in front of an instruction either.
    intro e ha
    exact absurd ha Bool.false_ne_true
  · exact fun _ error _ => ⟨error, rfl⟩

lemma Lone.error_of_runWithin (h : Lone e) (hr : e.runWithin n = (some r, t)) : ∃ error, r = .error error := by
  have ht : Lone (e.runWithin n).2 := runWithin_induction (fun _ => Lone.frame) h n
  rw [hr] at ht
  obtain ⟨halt, hh, rfl⟩ := halt_of_runWithin hr
  obtain ⟨error, rfl⟩ := ht.failed halt hh
  exact ⟨error, rfl⟩

end Headless

namespace Options

variable {o : Options} {rom : List UInt8} {key : ChaCha.Key}

/-- What the program reports that a command line asks for. There may be no report of a run without a number of
frames, which may go on forever. -/
def Reports (o : Options) (rom : List UInt8) (key : ChaCha.Key) (report : Report) : Prop :=
  match o.start rom key with
  | .error error => report = .error error
  | .ok e =>
    match o.frames with
    | some n => report = e.reportAfter n
    | none => e.Ends report

def prepared (o : Options) (rom : List UInt8) (key : ChaCha.Key) : Headless :=
  let e : Headless := .create .standard {} o.config key
  { e with mailbox :=
    { e.mailbox with pending := [.pause, .swapRom rom] ++ if o.startPaused then [] else [.resume] } }

lemma start_of_le (h : rom.length ≤ 3584) : o.start rom key = .ok (o.prepared rom key) := by
  have hv : (Message.swapRom rom : Message Unit).validate = .ok () := if_pos h
  rw [start, prepared]
  simp only [Link.trySend, hv]
  cases o.startPaused <;> rfl

lemma start_of_lt (h : 3584 < rom.length) : o.start rom key = .error (.romTooLarge rom.length 3584) := by
  have hv : (Message.swapRom rom : Message Unit).validate = .error (.romTooLarge rom.length 3584) :=
    if_neg (Nat.not_le.2 h)
  rw [start]
  simp only [Link.trySend, hv]
  rfl

lemma prepared_lone : (o.prepared rom key).Lone where
  pending := by
    rw [prepared]
    cases o.startPaused <;> simp [Message.isStop]
  failed := nofun

lemma prepared_idle (hp : o.startPaused = true) : Idle (o.prepared rom key) where
  paused := rfl
  halt := rfl
  screen := rfl
  waits := by
    rw [prepared, hp]
    simp [Message.isStop, Message.pausedAfter]

/-- A failure that one number of frames comes to shows in every larger number of them and without one, and nothing
else ends a run without a number of frames. -/
structure Agreement (o : Options) (rom : List UInt8) (key : ChaCha.Key) : Prop where
  fails : ∀ n error, { o with frames := some n }.Reports rom key (.error error) →
    (∀ m report, n ≤ m → ({ o with frames := some m }.Reports rom key report ↔ report = .error error)) ∧
      ∀ report, { o with frames := none }.Reports rom key report ↔ report = .error error
  ends : ∀ report, { o with frames := none }.Reports rom key report →
    ∃ error n, report = .error error ∧ { o with frames := some n }.Reports rom key (.error error)

/-- A run that only shows the blank screen, as often as it is told to. -/
structure Sleeps (o : Options) (rom : List UInt8) (key : ChaCha.Key) (e : Headless) : Prop where
  start : o.start rom key = .ok e
  frames : ∀ n, e.runWithin n = (none, e.run (List.replicate n .frame))
  attempted : ∀ n, collect attempted e (List.replicate n .frame) = []
  machine : ∀ n, (e.run (List.replicate (n + 1) .frame)).machine = e.drain.machine
  blank : ∀ n report, { o with frames := some n }.Reports rom key report ↔ report = .ok Screen.blank.text
  endless : ∀ report, ¬ { o with frames := none }.Reports rom key report

variable {e : Headless}

lemma reports_bounded (hs : o.start rom key = .ok e) (n : Nat) (report : Report) :
    { o with frames := some n }.Reports rom key report ↔ report = e.reportAfter n := by
  have hs' : { o with frames := some n }.start rom key = .ok e := hs
  rw [Reports, hs']

lemma reports_unbounded (hs : o.start rom key = .ok e) (report : Report) :
    { o with frames := none }.Reports rom key report ↔ e.Ends report := by
  have hs' : { o with frames := none }.start rom key = .ok e := hs
  rw [Reports, hs']

lemma agreement_of_lone (hs : o.start rom key = .ok e) (hl : e.Lone) : Agreement o rom key where
  fails n error h := by
    rw [reports_bounded hs] at h
    have hr : e.runWithin n = (some (.error error), (e.runWithin n).2) :=
      Prod.ext (Headless.reportAfter_eq_error_iff.1 h.symm) rfl
    constructor
    · intro m report hn
      have hm : e.reportAfter m = .error error :=
        Headless.reportAfter_eq_error_iff.2 (congrArg Prod.fst (runWithin_mono hr hn))
      rw [reports_bounded hs, hm]
    · intro report
      rw [reports_unbounded hs]
      exact Headless.Ends.of_error hr
  ends report h := by
    rw [reports_unbounded hs] at h
    obtain ⟨n, hn⟩ := Headless.ends_iff.1 h
    obtain ⟨r, t, hr, rfl⟩ := Headless.run_of_reportWithin hn
    obtain ⟨error, rfl⟩ := hl.error_of_runWithin hr
    refine ⟨error, n, rfl, ?_⟩
    rw [reports_bounded hs]
    exact (Headless.reportAfter_eq_error_iff.2 (congrArg Prod.fst hr)).symm

lemma sleeps_of_idle (hs : o.start rom key = .ok e) (hi : Idle e) (hl : e.mailbox.pending.length ≤ e.batchLimit) :
    Sleeps o rom key e where
  start := hs
  frames n := (hi.frames n).2.1
  attempted n := (hi.frames n).2.2
  machine := hi.machine_frames_succ hl
  blank n report := by
    obtain ⟨hn, hr, -⟩ := hi.frames n
    have ht : e.reportAfter n = .ok Screen.blank.text := by
      rw [Headless.reportAfter, hr]
      exact congrArg (fun screen => Except.ok screen.text) hn.screen
    rw [reports_bounded hs, ht]
  endless report h := by
    rw [reports_unbounded hs] at h
    obtain ⟨n, hn⟩ := Headless.ends_iff.1 h
    obtain ⟨r, t, hr, -⟩ := Headless.run_of_reportWithin hn
    rw [(hi.frames n).2.1] at hr
    cases hr

theorem headless_runs_agree (o : Options) (rom : List UInt8) (key : ChaCha.Key) :
    (o.seed ≠ none → ∀ other, o.start rom other = o.start rom key) ∧
      (3584 < rom.length → ∀ frames report, { o with frames := frames }.Reports rom key report ↔
        report = .error (.romTooLarge rom.length 3584)) ∧
      (rom.length ≤ 3584 → Agreement o rom key ∧ (o.startPaused = true → ∃ e, Sleeps o rom key e)) := by
  refine ⟨fun hseed other => ?_, fun hr frames report => ?_, fun hr => ⟨?_, fun hp => ?_⟩⟩
  · obtain ⟨seed, hs⟩ := Option.ne_none_iff_exists'.1 hseed
    simp only [start, create, config, hs, Option.map_some, Option.getD_some]
  · have hs : { o with frames := frames }.start rom key = .error (.romTooLarge rom.length 3584) := start_of_lt hr
    rw [Reports, hs]
  · exact agreement_of_lone (start_of_le hr) prepared_lone
  · have hl : (o.prepared rom key).mailbox.pending.length ≤ (o.prepared rom key).batchLimit := by
      rw [prepared, hp]
      exact show 2 ≤ 20 by decide
    exact ⟨_, sleeps_of_idle (start_of_le hr) (prepared_idle hp) hl⟩

/-- A program that fails in its third frame, run for three frames, for four and for as many as it takes, and left
paused. -/
theorem headless_runs_agree_failing :
    let o : Options := { ipf := 1, seed := some 7, rom := "failing" }
    let rom : List UInt8 := [0x00, 0xE0, 0x60, 0x05, 0xFF, 0xFF]
    let key : ChaCha.Key := Vector.replicate 8 0
    let error : Error := .unknownOpcode 0xFFFF 0x204
    let large : List UInt8 := List.replicate 3585 0
    (o.seed ≠ none ∧ rom.length ≤ 3584 ∧ 3584 < large.length) ∧
      o.start rom (Vector.replicate 8 1) = o.start rom key ∧
      { o with frames := some 3 }.Reports rom key (.error error) ∧
      { o with frames := some 4 }.Reports rom key (.error error) ∧
      { o with frames := none }.Reports rom key (.error error) ∧
      { o with frames := some 3, startPaused := true }.Reports rom key (.ok Screen.blank.text) ∧
      { o with frames := none }.Reports large key (.error (.romTooLarge large.length 3584)) := by
  intro o rom key error large
  have hr : rom.length ≤ 3584 := by decide
  have hl : 3584 < large.length := by
    rw [List.length_replicate]
    decide
  have hseed : o.seed ≠ none := nofun
  obtain ⟨hfirst, hsecond, hthird⟩ : (o.prepared rom key).frame.2.halt = none ∧
      (o.prepared rom key).frame.2.frame.2.halt = none ∧
      (o.prepared rom key).frame.2.frame.2.frame.2.halt = some (.fault error) := by decide +kernel
  have hrun := (runWithin_succ_of_going hfirst 2).trans
    ((runWithin_succ_of_going hsecond 1).trans (runWithin_succ_of_halt hthird 0))
  have hfails : { o with frames := some 3 }.Reports rom key (.error error) :=
    (reports_bounded (start_of_le hr) 3 _).2
      (Headless.reportAfter_eq_error_iff.2 (congrArg Prod.fst hrun)).symm
  obtain ⟨hkeys, -, hfits⟩ := headless_runs_agree o rom key
  obtain ⟨hlater, hunbounded⟩ := (hfits hr).1.fails 3 error hfails
  obtain ⟨e, hsleeps⟩ := ((headless_runs_agree { o with startPaused := true } rom key).2.2 hr).2 rfl
  refine ⟨⟨hseed, hr, hl⟩, hkeys hseed _, hfails, (hlater 4 _ (by decide)).2 rfl, (hunbounded _).2 rfl,
    (hsleeps.blank 3 _).2 rfl, ?_⟩
  rw [(headless_runs_agree o large key).2.1 hl]

end Options

end CommandLine

end Chip8
