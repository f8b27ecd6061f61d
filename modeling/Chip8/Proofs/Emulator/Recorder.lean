import Chip8.Proofs.Emulator.Frame
import Chip8.Proofs.Machine.Execute

/-! A host that remembers what it was told, and how each part of an emulator changes the tone. -/

namespace Chip8

structure Recorder (σ γ : Type) where
  host : σ
  heard : List (Event γ) := []

instance {σ γ : Type} [Host σ γ] : Host (Recorder σ γ) γ where
  notify r event := { host := Host.notify r.host event, heard := r.heard ++ [event] }
  stopsAt r := Host.stopsAt r.host

def Event.toTone {γ : Type} : Event γ → Option Tone
  | .tone t => some t
  | _ => none

namespace Emulator

variable {σ γ : Type}

def tones (e : Emulator (Recorder σ γ) γ) : List Tone := e.host.heard.filterMap Event.toTone

def Muted (e : Emulator σ γ) : Prop := e.machine.sound.count = 0 ∨ e.paused = true

/-- The host plays a tone that nothing asks for. -/
def Stuck (e : Emulator (Recorder σ γ) γ) : Prop := e.Muted ∧ e.tones.getLast? = some .on

def CutsTone (e : Emulator σ γ) : Prop :=
  ∃ x, Instruction.decode e.machine.opcode = some (.setSound x) ∧ e.machine.reg x = 0 ∧
    e.machine.sound.count ≠ 0

inductive ToneStep (e f : Emulator (Recorder σ γ) γ) : Prop
  | same : f.tones = e.tones → (f.Muted ↔ e.Muted) → ToneStep e f
  | off : f.tones = e.tones ++ [.off] → f.Muted → ToneStep e f
  | on : f.tones = e.tones ++ [.on] → ¬ f.Muted → ToneStep e f

lemma ToneStep.congr {e e' f : Emulator (Recorder σ γ) γ} (h : ToneStep e' f) (ht : e'.tones = e.tones)
    (hm : e'.Muted ↔ e.Muted) : ToneStep e f := by
  cases h with
  | same hf hm' => exact .same (hf.trans ht) (hm'.trans hm)
  | off hf hm' => exact .off (ht ▸ hf) hm'
  | on hf hm' => exact .on (ht ▸ hf) hm'

variable [Host σ γ]

lemma tones_notify (e : Emulator (Recorder σ γ) γ) (event : Event γ) :
    (e.notify event).tones = e.tones ++ event.toTone.toList := by
  simp only [tones, notify, Host.notify, List.filterMap_append, List.filterMap_cons, List.filterMap_nil]
  cases event.toTone <;> rfl

lemma tones_sound (e : Emulator (Recorder σ γ) γ) (t : Option Tone) :
    (e.sound t).tones = e.tones ++ t.toList := by
  cases t with
  | none => exact (List.append_nil _).symm
  | some t => exact tones_notify e (.tone t)

lemma pause_toneStep (e : Emulator (Recorder σ γ) γ) : ToneStep e e.pause := by
  rw [pause]
  cases hp : e.paused with
  | true => exact .same rfl Iff.rfl
  | false =>
    by_cases hc : e.machine.sound.count = 0
    · simp only [Bool.false_eq_true, if_false, SoundTimer.pause, if_pos hc]
      exact .same rfl ⟨fun _ => .inl hc, fun _ => .inl hc⟩
    · simp only [Bool.false_eq_true, if_false, SoundTimer.pause, if_neg hc]
      exact .off (tones_sound _ _) (.inr rfl)

lemma resume_toneStep (e : Emulator (Recorder σ γ) γ) : ToneStep e e.resume := by
  rw [resume]
  cases hp : e.paused with
  | false => exact .same rfl Iff.rfl
  | true =>
    by_cases hc : e.machine.sound.count = 0
    · simp only [if_true, SoundTimer.resume, if_pos hc]
      exact .same rfl ⟨fun _ => .inl hc, fun _ => .inl hc⟩
    · simp only [if_true, SoundTimer.resume, if_neg hc]
      exact .on (tones_sound _ _) (not_or.2 ⟨hc, nofun⟩)

lemma reset_toneStep (e : Emulator (Recorder σ γ) γ) : ToneStep e e.reset := by
  simp only [reset, SoundTimer.reset, SoundTimer.pause]
  by_cases hc : e.machine.sound.count = 0
  · rw [if_pos hc]
    exact .same rfl ⟨fun _ => .inl hc, fun _ => .inl rfl⟩
  · rw [if_neg hc]
    exact .off (tones_sound _ _) (.inl rfl)

lemma apply_toneStep (e : Emulator (Recorder σ γ) γ) (m : Message γ) : ToneStep e (e.apply m) := by
  cases m with
  | pause => exact pause_toneStep e
  | resume => exact resume_toneStep e
  | swapRom rom =>
    simp only [apply, loadRom]
    cases checkRom rom with
    | error error => exact .same rfl Iff.rfl
    | ok u =>
      have hr := reset_toneStep { e with machine := e.machine.loadRom rom, rom := rom }
      exact hr.congr rfl Iff.rfl
  | custom payload => exact .same ((tones_notify e _).trans (List.append_nil _)) Iff.rfl
  | _ => exact .same rfl Iff.rfl

lemma windUp_toneStep (e : Emulator (Recorder σ γ) γ) : ToneStep e e.windUp := by
  simp only [windUp, SoundTimer.decrement]
  by_cases hc : e.machine.sound.count = 0
  · simp only [if_pos hc]
    exact .same rfl Iff.rfl
  · by_cases h1 : e.machine.sound.count = 1
    · simp only [if_neg hc, if_pos h1]
      exact .off (tones_sound _ _) (.inl (by rw [sound_eq, h1]; rfl))
    · simp only [if_neg hc, if_neg h1]
      refine .same rfl (or_congr (iff_of_false ?_ hc) Iff.rfl)
      exact fun h => h1 (UInt8.eq_sub_iff_add_eq.1 h.symm).symm

lemma cycle_tones {e : Emulator (Recorder σ γ) γ} {i : Instruction} (h : e.cycle.1 = .ok i) :
    Instruction.decode e.machine.opcode = some i ∧
      e.cycle.2.machine.sound = (e.machine.fetched.soundAfter i).1 ∧
      e.cycle.2.tones = e.tones ++ (e.machine.fetched.soundAfter i).2.toList ∧
      e.cycle.2.paused = e.paused := by
  obtain ⟨r, hd, he, hn⟩ := cycle_of_ok h
  have hs := (Machine.execute_executes he).sound
  rw [← hs, hn]
  exact ⟨hd, by rw [sound_eq]; rfl, tones_sound _ _, by rw [sound_eq]⟩

lemma cycle_toneStep {e : Emulator (Recorder σ γ) γ} (hp : e.paused = false) (hc : ¬ e.CutsTone) :
    ToneStep e e.cycle.2 := by
  cases hr : e.cycle.1 with
  | error error =>
    rw [cycle_of_error hr]
    exact .same rfl Iff.rfl
  | ok i =>
    obtain ⟨hd, hs, ht, hq⟩ := cycle_tones hr
    have hrest (hi : e.machine.fetched.soundAfter i = (e.machine.sound, none)) : ToneStep e e.cycle.2 := by
      rw [hi] at hs ht
      refine .same (ht.trans (List.append_nil _)) ?_
      rw [Muted, Muted, hs, hq]
    cases i with
    | setSound x =>
      simp only [Machine.soundAfter, SoundTimer.set] at hs ht
      by_cases hv : e.machine.fetched.reg x = 0
      · have hz : e.machine.sound.count = 0 := Decidable.byContradiction fun h => hc ⟨x, hd, hv, h⟩
        rw [if_pos hv] at ht
        refine .same (ht.trans (List.append_nil _)) ?_
        rw [Muted, Muted, hs, hq, hv, hz]
      · rw [if_neg hv] at ht
        refine .on ht ?_
        rw [Muted, hs, hq, hp]
        exact not_or.2 ⟨hv, nofun⟩
    | _ => exact hrest rfl

lemma cycle_cut {e : Emulator (Recorder σ γ) γ} (hc : e.CutsTone) :
    e.cycle.2.tones = e.tones ∧ e.cycle.2.machine.sound.count = 0 := by
  obtain ⟨x, hd, hv, -⟩ := hc
  have hf : e.machine.fetched.reg x = 0 := hv
  have hr : e.cycle.1 = .ok (.setSound x) := by simp only [cycle, Machine.step, hd, Machine.execute]
  obtain ⟨-, hs, ht, -⟩ := cycle_tones hr
  simp only [Machine.soundAfter, SoundTimer.set, hf, if_true] at hs ht
  exact ⟨ht.trans (List.append_nil _), congrArg SoundTimer.count hs⟩

lemma preview_toneStep (e : Emulator (Recorder σ γ) γ) : ToneStep e e.preview :=
  .same ((tones_notify e _).trans (List.append_nil _)) Iff.rfl

lemma announce_toneStep (e : Emulator (Recorder σ γ) γ) : ToneStep e e.announce :=
  .same ((tones_notify e _).trans (List.append_nil _)) Iff.rfl

end Emulator

end Chip8
