import Chip8.Proofs.Emulator.Drain

/-! How a frame ends an emulator. What it comes to can be read off the emulator that it leaves, and a stop among its
messages is the last of them, so that nothing in the frame undoes it. -/

namespace Chip8

namespace Mailbox

variable {γ : Type}

lemma due_of_stop {before : List (Message γ)} (hb : ∀ m ∈ before, m.isStop = false) (limit : Nat)
    (behind : List (Message γ)) :
    due limit (before ++ .stop :: behind) = min limit (before.length + 1) := by
  have hi : (before ++ .stop :: behind).findIdx Message.isStop = before.length := by
    rw [List.findIdx_append, List.findIdx_eq_length.2 hb, if_neg (Nat.lt_irrefl _), List.findIdx_cons]
    exact Nat.zero_add _
  rw [due, hi, List.length_append, List.length_cons]
  omega

end Mailbox

namespace Emulator

variable {σ γ : Type} [Host σ γ] {e : Emulator σ γ}

lemma perform_outcome (e : Emulator σ γ) :
    e.perform.1 = match e.perform.2.halt with
      | some halt => .ofHalt halt
      | none => if e.perform.2.paused then .paused else .running := by
  cases hh : e.halt with
  | some halt => simp only [perform_of_halt hh, hh]
  | none =>
    have hc := (sameControls_perform e).paused
    cases hp : e.paused with
    | true =>
      have ha : e.announce.halt = none ∧ e.announce.paused = true := ⟨hh, hp⟩
      rw [perform_of_paused hh hp]
      simp only [ha.1, ha.2, if_true]
    | false =>
      rw [hp] at hc
      rw [perform_of_running hh hp] at hc ⊢
      cases hb : (executeBatch e.ipf e.announce).halt with
      | some halt => simp only [hb]
      | none =>
        simp only [hb] at hc ⊢
        have hw : (executeBatch e.ipf e.announce).windUp.halt = none := by rw [windUp, sound_eq, hb]
        rw [hw, hc]
        rfl

lemma frame_outcome (e : Emulator σ γ) :
    e.frame.1 = match e.frame.2.halt with
      | some halt => .ofHalt halt
      | none => if e.frame.2.paused then .paused else .running :=
  perform_outcome e.drain

lemma frame_of_halted {halt : Halt} (h : e.drain.halt = some halt) :
    e.frame = (.ofHalt halt, e.drain.publish) ∧ e.attempted .frame = [] := by
  have hp : e.attempted .frame = [] := if_neg fun hc => by
    rw [h] at hc
    cases hc.1
  rw [frame, perform_of_halt h]
  exact ⟨rfl, hp⟩

lemma drain_of_stop {before : List (Message γ)} (h : e.applied .frame = before ++ [.stop]) :
    e.drain.halt = some .stopped := by
  rw [drain_eq_foldl, h, List.foldl_append]
  rfl

/-- If the emulator has halted, then for a reason of this kind. -/
def HaltsOnly (p : Halt → Prop) (e : Emulator σ γ) : Prop := ∀ halt, e.halt = some halt → p halt

namespace HaltsOnly

variable {p : Halt → Prop}

lemma apply {m : Message γ} (h : HaltsOnly p e) (hm : m.isStop → p .stopped) : HaltsOnly p (e.apply m) := by
  intro halt hh
  rw [(apply_applies e m).halt] at hh
  cases m with
  | swapRom rom =>
    rw [Message.haltAfter] at hh
    split at hh
    · cases hh
    · exact h halt hh
  | stop =>
    cases hh
    exact hm rfl
  | _ => exact h halt hh

lemma foldl_apply {ms : List (Message γ)} (h : HaltsOnly p e) (hm : ∀ m ∈ ms, m.isStop → p .stopped) :
    HaltsOnly p (ms.foldl Emulator.apply e) := by
  induction ms generalizing e with
  | nil => exact h
  | cons m ms ih => exact ih (h.apply (hm m List.mem_cons_self)) fun n hn => hm n (List.mem_cons_of_mem m hn)

lemma cycle (h : HaltsOnly p e) (hf : ∀ error, e.cycle.1 = .error error → p (.fault error)) :
    HaltsOnly p e.cycle.2 := by
  intro halt hh
  rw [cycle_halt] at hh
  cases hc : e.cycle.1 with
  | ok i =>
    rw [hc] at hh
    exact h halt hh
  | error error =>
    rw [hc] at hh
    cases hh
    exact hf error hc

lemma execute (i : Instruction) (h : HaltsOnly p e) : HaltsOnly p (e.execute i).2 := by
  obtain he | ⟨r, -, he⟩ := execute_cases e i
  · rw [he]
    exact h
  · rw [he, sound_eq]
    exact h

lemma batch (ha : ∀ e : Emulator σ γ, e.aborts → p .aborted)
    (hf : ∀ (e : Emulator σ γ) error, e.cycle.1 = .error error → p (.fault error)) :
    BatchInvariant fun _ (e : Emulator σ γ) => HaltsOnly p e where
  announce h := h
  abort hstop _ := by
    intro halt hh
    cases hh
    exact ha _ hstop
  cycle _ _ h := HaltsOnly.cycle (e := preview _) h (hf _)
  windUp h := by
    intro halt hh
    rw [windUp_halt] at hh
    exact h halt hh

lemma frame (h : HaltsOnly p e) (hm : ∀ m ∈ e.applied .frame, m.isStop → p .stopped)
    (ha : ∀ e : Emulator σ γ, e.aborts → p .aborted)
    (hf : ∀ (e : Emulator σ γ) error, e.cycle.1 = .error error → p (.fault error)) : HaltsOnly p e.frame.2 := by
  have hd : HaltsOnly p e.drain := by
    rw [drain_eq_foldl]
    exact HaltsOnly.foldl_apply h hm
  exact @BatchInvariant.perform _ _ _ _ [] e.drain (HaltsOnly.batch ha hf) hd

end HaltsOnly

end Emulator

end Chip8
