import Chip8.Proofs.Emulator.FrameCycles
import Chip8.Proofs.Emulator.Termination

/-! What controllers read of an emulator. A frame publishes what it has made of the emulator, whichever way it is left,
and nothing else publishes anything, so that what is read is never older than the last frame. -/

namespace Chip8

/-- The snapshot tells of the emulator what it is. -/
structure Snapshot.Shows {σ γ : Type} (s : Snapshot) (e : Emulator σ γ) : Prop where
  screen : s.screen = e.machine.screen
  pc : s.pc = e.machine.pc
  opcode : s.opcode = e.machine.opcode
  ipf : s.ipf = e.ipf
  rom : s.rom = e.rom
  romSize : s.romSize = e.rom.length
  paused : s.paused = e.paused
  halted : s.halted = true ↔ ∃ halt, e.halt = some halt
  drawCount : s.drawCount = e.drawCount
  cycles : s.cycles = e.machine.cycles

namespace Emulator

variable {σ γ : Type}

lemma snapshot_shows (e : Emulator σ γ) : e.snapshot.Shows e :=
  ⟨rfl, rfl, rfl, rfl, rfl, rfl, rfl, Option.isSome_iff_exists, rfl, rfl⟩

variable [Host σ γ] {e : Emulator σ γ}

/-- The ways out of a frame, each with the emulator that is published there. A batch is left in front of an instruction
at which the host stops, behind one that fails, or when its end is reached. -/
inductive Leaves (e : Emulator σ γ) : Outcome → Emulator σ γ → Prop
  | halted {halt : Halt} : e.drain.halt = some halt → Leaves e (.ofHalt halt) e.drain
  | paused : e.drain.halt = none → e.drain.paused = true → Leaves e .paused e.drain.announce
  | aborted (k : Nat) : e.drain.halt = none → e.drain.paused = false →
      (round^[k] e.drain.announce).aborts = true →
      Leaves e .halted { (round^[k] e.drain.announce).preview with halt := some .aborted }
  | failed (k : Nat) {error : Error} : e.drain.halt = none → e.drain.paused = false →
      (round^[k] e.drain.announce).cycle.1 = .error error →
      Leaves e (.fault error) { (round^[k] e.drain.announce).preview with
        machine := (round^[k] e.drain.announce).machine.fetched
        halt := some (.fault error) }
  | ran (k : Nat) : e.drain.halt = none → e.drain.paused = false → (round^[k] e.drain.announce).halt = none →
      Leaves e .running (round^[k] e.drain.announce).windUp

lemma aborts_of_ending {limit n : Nat} (h : ending limit e n = some .abort) : (round^[n] e).aborts = true := by
  rw [ending] at h
  split_ifs at h with hlimit hdrew habort
  · cases h
  · cases h
  · exact habort
  · cases hc : (round^[n] e).cycle.1 <;> rw [hc] at h <;> cases h

lemma leaves_of_running (hh : e.drain.halt = none) (hp : e.drain.paused = false) :
    Leaves e e.drain.perform.1 e.drain.perform.2 := by
  obtain ⟨k, why, hk, hj, -, hb⟩ := executeBatch_eq_conclude e.drain.ipf e.drain.announce
  have hok : ∀ j < k, ∃ i, (round^[j] e.drain.announce).cycle.1 = .ok i :=
    fun j hlt => cycle_ok_of_ending (hj j hlt)
  have hbh : (round^[k] e.drain.announce).halt = none := (rounds_keep k hok).1.trans hh
  have hf : ∀ error, why = .fault error → (round^[k] e.drain.announce).cycle.1 = .error error := by
    rintro error rfl
    exact cycle_error_of_ending hk
  rw [perform_eq_settle hh hp hb hbh hf]
  cases why with
  | budget | draw => exact .ran k hh hp hbh
  | abort => exact .aborted k hh hp (aborts_of_ending hk)
  | fault error => exact .failed k hh hp (hf error rfl)

lemma frame_leaves (e : Emulator σ γ) : Leaves e e.drain.perform.1 e.drain.perform.2 := by
  cases hh : e.drain.halt with
  | some halt =>
    rw [perform_of_halt hh]
    exact .halted hh
  | none =>
    cases hp : e.drain.paused with
    | true =>
      rw [perform_of_paused hh hp]
      exact .paused hh hp
    | false => exact leaves_of_running hh hp

lemma cycle_published (e : Emulator σ γ) : e.cycle.2.published = e.published := by
  cases hc : e.cycle.1 with
  | error error => rw [cycle_of_error hc]
  | ok i =>
    obtain ⟨r, -, -, hn⟩ := cycle_of_ok hc
    rw [hn, sound_eq]

lemma execute_published (e : Emulator σ γ) (i : Instruction) : (e.execute i).2.published = e.published := by
  obtain he | ⟨r, -, he⟩ := execute_cases e i
  · rw [he]
  · rw [he, sound_eq]

lemma executeAll_published (e : Emulator σ γ) (is : List Instruction) :
    (e.executeAll is).2.published = e.published := by
  induction is generalizing e with
  | nil => rfl
  | cons i is ih =>
    have hi := execute_published e i
    rw [executeAll]
    cases hr : e.execute i with
    | mk verdict next =>
      rw [hr] at hi
      cases verdict with
      | done => exact (ih next).trans hi
      | failed error => exact hi
      | refused => exact hi

lemma act_published {a : Action γ} (ha : a ≠ .frame) (e : Emulator σ γ) : (e.act a).published = e.published := by
  cases a with
  | trySend m | send m => exact submission_keeps (P := fun f => f.published = e.published) (fun _ _ h => h) rfl rfl
  | frame => exact absurd rfl ha
  | cycle => exact cycle_published e
  | execute i => exact execute_published e i
  | reset => rw [act, reset, sound_eq]
  | operate m => exact (apply_applies e m).published

/-- The emulator that an action leaves, if it is a frame. -/
def framed (e : Emulator σ γ) : Action γ → List (Emulator σ γ)
  | .frame => [e.frame.2]
  | _ => []

lemma published_act (e : Emulator σ γ) (a : Action γ) :
    (e.act a).published = ((e.framed a).getLast?.map snapshot).or e.published := by
  by_cases ha : a = .frame
  · subst ha
    rfl
  · have hn : e.framed a = [] := by
      cases a with
      | frame => exact absurd rfl ha
      | _ => rfl
    rw [act_published ha, hn]
    rfl

lemma published_run (e : Emulator σ γ) (as : List (Action γ)) :
    (e.run as).published = ((collect framed e as).getLast?.map snapshot).or e.published := by
  induction as generalizing e with
  | nil => rfl
  | cons a as ih =>
    calc (e.run (a :: as)).published
        = ((collect framed (e.act a) as).getLast?.map snapshot).or (e.act a).published := ih (e.act a)
      _ = ((collect framed e (a :: as)).getLast?.map snapshot).or e.published := by
        rw [published_act, ← Option.or_assoc, ← Option.map_or, ← List.getLast?_append, collect]

lemma published_of_runWithin {n : Nat} {r : Except Error Unit} {t : Emulator σ γ}
    (h : e.runWithin n = (some r, t)) : t.published = some t.snapshot := by
  induction n generalizing e with
  | zero => cases h
  | succ n ih =>
    cases hh : e.frame.2.halt with
    | some halt =>
      rw [runWithin_succ_of_halt hh] at h
      cases h
      rfl
    | none =>
      rw [runWithin_succ_of_going hh] at h
      exact ih h

theorem published_current (e : Emulator σ γ) :
    (∃ f, Leaves e e.frame.1 f ∧ e.frame.2 = f.publish ∧
        (Link.live e.frame.2).snapshot = some e.frame.2.snapshot ∧ e.frame.2.snapshot.Shows e.frame.2) ∧
      (∀ a, a ≠ .frame → (Link.live (e.act a)).snapshot = (Link.live e).snapshot) ∧
      (∀ is, (Link.live (e.executeAll is).2).snapshot = (Link.live e).snapshot) ∧
      (∀ as, (Link.live (e.run as)).snapshot =
        ((collect framed e as).getLast?.map snapshot).or (Link.live e).snapshot) ∧
      ∀ n r t, e.runWithin n = (some r, t) →
        ∃ s, (Link.live t).snapshot = some s ∧ (Link.live t).drop.snapshot = some s ∧ s = t.snapshot ∧
          s.Shows t ∧ s.halted = true := by
  refine ⟨⟨e.drain.perform.2, frame_leaves e, rfl, rfl, snapshot_shows _⟩, fun a ha => act_published ha e, executeAll_published e,
    published_run e, ?_⟩
  intro n r t h
  obtain ⟨halt, hh, -⟩ := halt_of_runWithin h
  have hp := published_of_runWithin h
  have hs := t.snapshot_shows
  exact ⟨t.snapshot, hp, hp, rfl, hs, hs.halted.2 ⟨halt, hh⟩⟩

/-- A program that fails at its second instruction, and a cycle given by hand in front of that. -/
theorem published_current_failing :
    let e := alone [0x60, 0x05, 0xFF, 0xFF]
    Action.cycle ≠ (.frame : Action Unit) ∧ (Link.live (e.act .cycle)).snapshot = (Link.live e).snapshot ∧
      ∃ t s, e.runWithin 1 = (some (.error (.unknownOpcode 0xFFFF 0x202)), t) ∧ (Link.live t).snapshot = some s ∧
        (Link.live t).drop.snapshot = some s ∧ s = t.snapshot ∧ s.Shows t ∧ s.halted = true := by
  intro e
  obtain ⟨-, hcycle, -, -, hends⟩ := published_current e
  have hne : Action.cycle ≠ (.frame : Action Unit) := nofun
  have hh : e.frame.2.halt = some (.fault (.unknownOpcode 0xFFFF 0x202)) := by decide +kernel
  have hr := runWithin_succ_of_halt hh 0
  exact ⟨hne, hcycle _ hne, e.frame.2, (hends 1 _ _ hr).imp fun s hs => ⟨hr, hs⟩⟩

end Emulator

end Chip8
