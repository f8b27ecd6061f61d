import Chip8.Proofs.Emulator.Recorder
import Chip8.Proofs.Emulator.Run

/-! The tone that a host was last told of. It goes with the sound timer, except that a program which clears a
running timer leaves the tone on. -/

namespace Chip8.Emulator

variable {σ γ : Type} [Host σ γ]

/-- A tone is stuck because of the last cut, behind which nothing has been heard. -/
structure Heard (xs : List (Emulator (Recorder σ γ) γ)) (e : Emulator (Recorder σ γ) γ) : Prop where
  past : ∀ x ∈ xs, x.tones.length ≤ e.tones.length
  playing : ¬ e.Muted → e.tones.getLast? = some .on
  stuck_iff : e.Stuck ↔ ∃ x ∈ xs, x.CutsTone ∧ x.tones = e.tones

section

variable {xs : List (Emulator (Recorder σ γ) γ)} {e f x : Emulator (Recorder σ γ) γ}

omit [Host σ γ] in
lemma Heard.ne_of_append {t : Tone} (h : Heard xs e) (ht : f.tones = e.tones ++ [t]) :
    ¬ ∃ x ∈ xs, x.CutsTone ∧ x.tones = f.tones := by
  rintro ⟨x, hx, -, he⟩
  have hle := h.past x hx
  rw [he, ht, List.length_append, List.length_singleton] at hle
  omega

omit [Host σ γ] in
lemma Heard.past_append (h : Heard xs e) (t : Tone) : ∀ x ∈ xs, x.tones.length ≤ (e.tones ++ [t]).length := by
  intro x hx
  rw [List.length_append]
  exact Nat.le_add_right_of_le (h.past x hx)

omit [Host σ γ] in
lemma Heard.step (h : Heard xs e) (hs : ToneStep e f) : Heard xs f := by
  cases hs with
  | same ht hm =>
    constructor
    · rw [ht]
      exact h.past
    · intro hf
      rw [ht]
      exact h.playing fun he => hf (hm.2 he)
    · rw [Stuck, hm, ht]
      exact h.stuck_iff
  | off ht hm =>
    have hlast : f.tones.getLast? = some .off := by rw [ht, List.getLast?_concat]
    have hfree : ¬ f.Stuck := by
      rintro ⟨-, hon⟩
      rw [hlast] at hon
      cases hon
    constructor
    · rw [ht]
      exact h.past_append .off
    · intro hf
      exact absurd hm hf
    · exact iff_of_false hfree (h.ne_of_append ht)
  | on ht hm =>
    constructor
    · rw [ht]
      exact h.past_append .on
    · intro _
      rw [ht, List.getLast?_concat]
    · exact iff_of_false (fun hstuck => hm hstuck.1) (h.ne_of_append ht)

omit [Host σ γ] in
lemma Heard.snoc (h : Heard xs e) (hx : x.tones = e.tones) (hc : ¬ x.CutsTone) : Heard (xs ++ [x]) e := by
  refine ⟨?_, h.playing, h.stuck_iff.trans ⟨?_, ?_⟩⟩
  · have hle : x.tones.length ≤ e.tones.length := Nat.le_of_eq (congrArg List.length hx)
    exact List.forall_mem_append.2 ⟨h.past, List.forall_mem_singleton.2 hle⟩
  · rintro ⟨y, hy, hcut⟩
    exact ⟨y, List.mem_append_left _ hy, hcut⟩
  · rintro ⟨y, hy, hcut⟩
    rcases List.mem_append.1 hy with hy | hy
    · exact ⟨y, hy, hcut⟩
    · rw [List.mem_singleton.1 hy] at hcut
      exact absurd hcut.1 hc

lemma Heard.cut (h : Heard xs e) (hp : e.paused = false) (hc : e.CutsTone) : Heard (xs ++ [e]) e.cycle.2 := by
  obtain ⟨ht, hz⟩ := cycle_cut hc
  have hsounds : ¬ e.Muted := by
    obtain ⟨x, -, -, hn⟩ := hc
    rintro (h0 | hp')
    · exact hn h0
    · rw [hp] at hp'
      cases hp'
  have hmuted : e.cycle.2.Muted := .inl hz
  constructor
  · rw [ht]
    exact List.forall_mem_append.2 ⟨h.past, List.forall_mem_singleton.2 (Nat.le_refl _)⟩
  · intro hf
    exact absurd hmuted hf
  · have hstuck : e.cycle.2.Stuck := ⟨hmuted, ht ▸ h.playing hsounds⟩
    have he : e ∈ xs ++ [e] := List.mem_append_right _ (List.mem_singleton_self e)
    exact iff_of_true hstuck ⟨e, he, hc, ht.symm⟩

lemma Heard.cycle (h : Heard xs e) (hp : e.paused = false) : Heard (xs ++ [e]) e.cycle.2 := by
  by_cases hc : e.CutsTone
  · exact h.cut hp hc
  · exact (h.snoc rfl hc).step (cycle_toneStep hp hc)

lemma heard_invariant : FrameInvariant fun xs (e : Emulator (Recorder σ γ) γ) => Heard xs e where
  apply m h := h.step (apply_toneStep _ m)
  announce h := h.step (announce_toneStep _)
  abort h := (h.step (preview_toneStep _)).step (.same rfl Iff.rfl)
  cycle _ hp h := (h.step (preview_toneStep _)).cycle hp
  windUp h := h.step (windUp_toneStep _)
  publish h := h.step (.same rfl Iff.rfl)

omit [Host σ γ] in
lemma Heard.setMailbox (e : Emulator (Recorder σ γ) γ) (b : Mailbox γ) (h : Heard xs e) :
    Heard xs { e with mailbox := b } :=
  h.step (.same rfl Iff.rfl)

lemma Heard.act {a : Action γ} (ha : a.Remote) (h : Heard xs e) : Heard (xs ++ e.attempted a) (e.act a) := by
  cases a with
  | trySend m | send m =>
    simp only [attempted, List.append_nil]
    exact submission_keeps Heard.setMailbox rfl h
  | frame => exact heard_invariant.frame (h.setMailbox e _)
  | _ => exact ha.elim

lemma Heard.run {as : List (Action γ)} (ha : ∀ a ∈ as, a.Remote) (h : Heard xs e) :
    Heard (xs ++ collect attempted e as) (e.run as) :=
  collect_induction (fun _ _ _ => Heard.act) (permits_of_forall ha) h

end

omit [Host σ γ] in
def recorded (font : Font) (host : σ) (config : Config) (key : ChaCha.Key) : Emulator (Recorder σ γ) γ :=
  create font { host := host } config key

omit [Host σ γ] in
lemma recorded_heard (font : Font) (host : σ) (config : Config) (key : ChaCha.Key) :
    Heard [] (recorded font host config key : Emulator (Recorder σ γ) γ) where
  past := List.forall_mem_nil _
  playing h := absurd (.inl rfl) h
  stuck_iff := iff_of_false (fun h => by cases h.2) fun ⟨_, hx, _⟩ => by cases hx

theorem tone_stuck_iff (font : Font) (host : σ) (config : Config) (key : ChaCha.Key) (as : List (Action γ))
    (ha : ∀ a ∈ as, a.Remote) :
    ((recorded font host config key).run as).Stuck ↔
      ∃ x ∈ collect attempted (recorded font host config key) as,
        x.CutsTone ∧ x.tones = ((recorded font host config key).run as).tones := by
  have h := (recorded_heard font host config key).run ha
  exact h.stuck_iff

/-- A program that sets the sound timer to 5 and then, in the same frame, to 0. -/
def cutting : List (Action Unit) :=
  [.send (.swapRom [0x60, 0x05, 0xF0, 0x18, 0x60, 0x00, 0xF0, 0x18]), .send .resume, .frame]

theorem tone_stuck_iff_cutting :
    (∀ a ∈ cutting, a.Remote) ∧
      (((recorded .standard Silence.mk { ipf := 4 } (Vector.replicate 8 0)).run cutting).Stuck ↔
        ∃ x ∈ collect attempted (recorded .standard Silence.mk { ipf := 4 } (Vector.replicate 8 0)) cutting,
          x.CutsTone ∧
            x.tones = ((recorded .standard Silence.mk { ipf := 4 } (Vector.replicate 8 0)).run cutting).tones) := by
  have ha : ∀ a ∈ cutting, a.Remote := by simp [cutting, Action.Remote]
  exact ⟨ha, tone_stuck_iff _ _ _ _ _ ha⟩

theorem tone_stuck_cutting :
    (∀ a ∈ cutting, a.Remote) ∧
      ((recorded .standard Silence.mk { ipf := 4 } (Vector.replicate 8 0)).run cutting).Stuck := by
  refine ⟨by simp [cutting, Action.Remote], .inl ?_, ?_⟩ <;> decide +kernel

end Chip8.Emulator
