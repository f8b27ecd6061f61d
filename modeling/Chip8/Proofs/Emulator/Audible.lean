import Chip8.Proofs.Emulator.Tone

/-! A running sound timer is heard. Whatever the program, the controllers and the owner do to an emulator, the host
was last told to play as long as the timer counts and time goes on. -/

namespace Chip8.Emulator

variable {σ γ : Type}

/-- The timer may be set while the emulator is paused; then the tone is on although nothing asks for it yet. -/
def Voiced (e : Emulator (Recorder σ γ) γ) : Prop := ¬ e.Muted → e.tones.getLast? = some .on

variable {e f : Emulator (Recorder σ γ) γ}

lemma Voiced.of_same (h : Voiced e) (ht : f.tones = e.tones) (hm : f.Muted ↔ e.Muted) : Voiced f := by
  intro hf
  rw [ht]
  exact h fun he => hf (hm.2 he)

lemma Voiced.step (h : Voiced e) (hs : ToneStep e f) : Voiced f := by
  cases hs with
  | same ht hm => exact h.of_same ht hm
  | off _ hm => exact fun hf => absurd hm hf
  | on ht _ =>
    intro _
    rw [ht, List.getLast?_concat]

variable [Host σ γ]

lemma Voiced.take {m : Machine} {i : Instruction} {r : Effect} (h : Voiced e) (hm : m.sound = e.machine.sound)
    (hr : (r.machine.sound, r.tone) = m.soundAfter i) : Voiced (e.take r) := by
  have hsound : (e.take r).machine.sound = (m.soundAfter i).1 := by
    rw [Emulator.take, sound_eq]
    exact congrArg Prod.fst hr
  have htones : (e.take r).tones = e.tones ++ (m.soundAfter i).2.toList := by
    rw [← hr]
    exact tones_sound _ _
  have hpaused : (e.take r).paused = e.paused := by rw [Emulator.take, sound_eq]
  have hrest (hi : m.soundAfter i = (m.sound, none)) : Voiced (e.take r) := by
    rw [hi] at hsound htones
    refine h.of_same (htones.trans (List.append_nil _)) ?_
    rw [Muted, Muted, hsound, hm, hpaused]
  cases i with
  | setSound x =>
    simp only [Machine.soundAfter, SoundTimer.set] at hsound htones
    by_cases hv : m.reg x = 0
    · -- A timer cleared by the program is silent, and the emulator is muted whatever was heard.
      have hmuted : (e.take r).Muted := .inl (by rw [hsound, hv])
      exact fun hf => absurd hmuted hf
    · rw [if_neg hv] at htones
      intro _
      rw [htones, Option.toList_some, List.getLast?_concat]
  | _ => exact hrest rfl

lemma Voiced.cycle (h : Voiced e) : Voiced e.cycle.2 := by
  cases hr : e.cycle.1 with
  | error error =>
    rw [cycle_of_error hr]
    exact h.of_same rfl Iff.rfl
  | ok i =>
    obtain ⟨r, -, he, hn⟩ := cycle_of_ok hr
    have hs := (Machine.execute_executes he).sound
    rw [hn]
    exact h.take (r := { machine := r.machine.counted, tone := r.tone }) (m := e.machine.fetched) rfl hs

lemma Voiced.execute (h : Voiced e) (i : Instruction) : Voiced (e.execute i).2 := by
  obtain he | ⟨r, hr, he⟩ := execute_cases e i
  · rw [he]
    exact h
  · rw [he]
    exact h.take rfl (Machine.execute_executes hr).sound

lemma voiced_invariant : FrameInvariant fun _ (e : Emulator (Recorder σ γ) γ) => Voiced e where
  apply m h := h.step (apply_toneStep _ m)
  announce h := h.step (announce_toneStep _)
  abort h := (h.step (preview_toneStep _)).of_same rfl Iff.rfl
  cycle _ _ h := (h.step (preview_toneStep _)).cycle
  windUp h := h.step (windUp_toneStep _)
  publish h := h.of_same rfl Iff.rfl

omit [Host σ γ] in
lemma Voiced.setMailbox (e : Emulator (Recorder σ γ) γ) (b : Mailbox γ) (h : Voiced e) :
    Voiced { e with mailbox := b } :=
  h.of_same rfl Iff.rfl

lemma Voiced.act (h : Voiced e) (a : Action γ) : Voiced (e.act a) := by
  cases a with
  | trySend m | send m => exact submission_keeps Voiced.setMailbox rfl h
  | frame => exact @FrameInvariant.frame _ _ _ _ [] e voiced_invariant (h.setMailbox e _)
  | cycle => exact h.cycle
  | execute i => exact h.execute i
  | reset => exact h.step (reset_toneStep e)
  | operate m => exact h.step (apply_toneStep e m)

lemma Voiced.run (h : Voiced e) (as : List (Action γ)) : Voiced (e.run as) :=
  run_induction (fun _ a h => h.act a) h as

omit [Host σ γ] in
lemma recorded_voiced (font : Font) (host : σ) (config : Config) (key : ChaCha.Key) :
    Voiced (recorded font host config key : Emulator (Recorder σ γ) γ) :=
  fun h => absurd (.inl rfl) h

theorem running_timer_heard (font : Font) (host : σ) (config : Config) (key : ChaCha.Key) (as : List (Action γ))
    (hp : ((recorded font host config key).run as).paused = false)
    (hc : ((recorded font host config key).run as).machine.sound.count ≠ 0) :
    ((recorded font host config key).run as).tones.getLast? = some .on := by
  have hv := (recorded_voiced font host config key).run as
  refine hv ?_
  rintro (h | h)
  · exact hc h
  · rw [hp] at h
    cases h

/-- The timer is set by hand while the emulator is paused, which then is resumed for a frame that fails. -/
def resuming : List (Action Unit) :=
  [.operate (.swapRom [0x60, 0x05, 0xF0, 0x18]), .cycle, .cycle, .send .resume, .frame]

theorem running_timer_heard_resuming :
    ((recorded .standard Silence.mk {} (Vector.replicate 8 0)).run resuming).paused = false ∧
      ((recorded .standard Silence.mk {} (Vector.replicate 8 0)).run resuming).machine.sound.count ≠ 0 ∧
      ((recorded .standard Silence.mk {} (Vector.replicate 8 0)).run resuming).tones.getLast? = some .on := by
  have hp : ((recorded .standard Silence.mk {} (Vector.replicate 8 0)).run resuming).paused = false := by
    decide +kernel
  have hc : ((recorded .standard Silence.mk {} (Vector.replicate 8 0)).run resuming).machine.sound.count ≠ 0 := by
    decide +kernel
  exact ⟨hp, hc, running_timer_heard _ _ _ _ _ hp hc⟩

end Chip8.Emulator
