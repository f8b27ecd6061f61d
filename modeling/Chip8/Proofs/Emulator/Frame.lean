import Chip8.Emulator.Frame
import Mathlib.Tactic.Lemma

/-! Induction over the emulators that a frame passes through. The emulators in which a cycle is attempted are
kept in a list beside the one that the frame has come to. -/

namespace Chip8.Emulator

variable {σ γ : Type} [Host σ γ]

lemma eq_ok_of_toOption {ε α : Type} {x : Except ε α} {a : α} (h : x.toOption = some a) : x = .ok a := by
  cases x with
  | error error => cases h
  | ok b => exact congrArg Except.ok (Option.some.inj h)

lemma sound_eq (e : Emulator σ γ) (t : Option Tone) :
    e.sound t = { e with host := t.elim e.host fun tone => Host.notify e.host (.tone tone) } := by
  cases t <;> rfl

lemma cycle_of_ok {e : Emulator σ γ} {i : Instruction} (h : e.cycle.1 = .ok i) :
    ∃ r, Instruction.decode e.machine.opcode = some i ∧ e.machine.fetched.execute i = .ok r ∧
      e.cycle.2 = { e with machine := r.machine.counted }.sound r.tone := by
  simp only [cycle, Machine.step] at h ⊢
  cases hd : Instruction.decode e.machine.opcode with
  | none => simp [hd] at h
  | some j =>
    cases hr : e.machine.fetched.execute j with
    | error error => simp [hd, hr] at h
    | ok r =>
      simp only [hd, hr, Except.ok.injEq] at h ⊢
      subst h
      exact ⟨r, rfl, hr, rfl⟩

lemma cycle_of_error {e : Emulator σ γ} {error : Error} (h : e.cycle.1 = .error error) :
    e.cycle.2 = { e with machine := e.machine.fetched, halt := some (.fault error) } := by
  simp only [cycle] at h ⊢
  cases hs : e.machine.step with
  | ok step => simp [hs] at h
  | error error' =>
    simp only [hs, Except.error.injEq] at h
    simp [h]

lemma cycle_halt (e : Emulator σ γ) :
    e.cycle.2.halt = match e.cycle.1 with
      | .ok _ => e.halt
      | .error error => some (.fault error) := by
  cases hc : e.cycle.1 with
  | error error => rw [cycle_of_error hc]
  | ok i =>
    obtain ⟨r, -, -, hn⟩ := cycle_of_ok hc
    rw [hn, sound_eq]

lemma windUp_halt (e : Emulator σ γ) : e.windUp.halt = e.halt := by
  rw [windUp, sound_eq]

lemma execute_cases (e : Emulator σ γ) (i : Instruction) :
    (e.execute i).2 = e ∨
      ∃ r, e.machine.execute i = .ok r ∧ (e.execute i).2 = { e with machine := r.machine }.sound r.tone := by
  rw [execute]
  cases e.machine.accepts i with
  | false => exact .inl rfl
  | true =>
    cases hr : e.machine.execute i with
    | error error => exact .inl rfl
    | ok r => exact .inr ⟨r, rfl, rfl⟩

lemma perform_of_halt {e : Emulator σ γ} {halt : Halt} (h : e.halt = some halt) :
    e.perform = (.ofHalt halt, e) := by
  simp [perform, h]

lemma perform_of_paused {e : Emulator σ γ} (hh : e.halt = none) (hp : e.paused = true) :
    e.perform = (.paused, e.announce) := by
  have ha : e.announce.paused = true := hp
  simp [perform, hh, ha]

lemma perform_of_running {e : Emulator σ γ} (hh : e.halt = none) (hp : e.paused = false) :
    e.perform = match (executeBatch e.ipf e.announce).halt with
      | some halt => (.ofHalt halt, executeBatch e.ipf e.announce)
      | none => (.running, (executeBatch e.ipf e.announce).windUp) := by
  have ha : e.announce.paused = false := hp
  have hi : e.announce.ipf = e.ipf := rfl
  cases hb : (executeBatch e.ipf e.announce).halt <;> simp [perform, hh, ha, hi, hb]

def attempts : Nat → Emulator σ γ → List (Emulator σ γ)
  | 0, _ => []
  | n + 1, e =>
    if e.aborts then []
    else e.preview :: match e.preview.cycle with
      | (.error _, _) => []
      | (.ok i, next) => if i.isDraw then [] else attempts n next

/-- The emulators in which a frame attempts a cycle, once its messages are applied. -/
def performed (e : Emulator σ γ) : List (Emulator σ γ) :=
  if e.halt = none ∧ e.paused = false then attempts e.ipf e.announce else []

/-- A property of an emulator and of the cycles attempted on the way to it that every part of a frame keeps. -/
structure FrameInvariant (P : List (Emulator σ γ) → Emulator σ γ → Prop) : Prop where
  apply : ∀ {xs e} (m : Message γ), P xs e → P xs (e.apply m)
  announce : ∀ {xs e}, P xs e → P xs e.announce
  abort : ∀ {xs e}, P xs e → P xs { e.preview with halt := some .aborted }
  cycle : ∀ {xs e}, e.halt = none → e.paused = false → P xs e → P (xs ++ [e.preview]) e.preview.cycle.2
  windUp : ∀ {xs e}, P xs e → P xs e.windUp
  publish : ∀ {xs e}, P xs e → P xs e.publish

/-- What a frame has to keep once its messages are applied. -/
structure BatchInvariant (P : List (Emulator σ γ) → Emulator σ γ → Prop) : Prop where
  announce : ∀ {xs e}, P xs e → P xs e.announce
  abort : ∀ {xs e}, e.aborts → P xs e → P xs { e.preview with halt := some .aborted }
  cycle : ∀ {xs e}, e.halt = none → e.paused = false → P xs e → P (xs ++ [e.preview]) e.preview.cycle.2
  windUp : ∀ {xs e}, P xs e → P xs e.windUp

variable {P : List (Emulator σ γ) → Emulator σ γ → Prop} {xs : List (Emulator σ γ)} {e : Emulator σ γ}

namespace BatchInvariant

lemma executeBatch (k : BatchInvariant P) (n : Nat) (hh : e.halt = none) (hp : e.paused = false) (h : P xs e) :
    P (xs ++ attempts n e) (executeBatch n e) := by
  induction n generalizing xs e with
  | zero => simpa [attempts, Emulator.executeBatch] using h
  | succ n ih =>
    simp only [attempts, Emulator.executeBatch]
    by_cases ha : e.aborts
    · simpa [ha] using k.abort ha h
    · have hc := k.cycle hh hp h
      simp only [ha, Bool.false_eq_true, if_false]
      cases hr : e.preview.cycle with
      | mk result next =>
        rw [hr] at hc
        cases result with
        | error error => exact hc
        | ok i =>
          by_cases hi : i.isDraw
          · simpa [hi] using hc
          · obtain ⟨r, -, -, hn⟩ := cycle_of_ok (congrArg Prod.fst hr)
            rw [hr, sound_eq] at hn
            have hrest := ih (by rw [hn]; exact hh) (by rw [hn]; exact hp) hc
            simpa [hi] using hrest

lemma perform (k : BatchInvariant P) (h : P xs e) : P (xs ++ e.performed) e.perform.2 := by
  cases hh : e.halt with
  | some halt => simpa [performed, hh, perform_of_halt hh] using h
  | none =>
    have ha := k.announce h
    cases hp : e.paused with
    | true => simpa [performed, hh, hp, perform_of_paused hh hp] using ha
    | false =>
      have hb := k.executeBatch e.ipf (show e.announce.halt = none from hh) hp ha
      rw [performed, if_pos ⟨hh, hp⟩, perform_of_running hh hp]
      cases (Emulator.executeBatch e.ipf e.announce).halt with
      | some halt => exact hb
      | none => exact k.windUp hb

end BatchInvariant

namespace FrameInvariant

lemma batch (k : FrameInvariant P) : BatchInvariant P where
  announce := k.announce
  abort _ := k.abort
  cycle := k.cycle
  windUp := k.windUp

lemma foldl_apply (k : FrameInvariant P) (ms : List (Message γ)) (h : P xs e) :
    P xs (ms.foldl Emulator.apply e) := by
  induction ms generalizing e with
  | nil => exact h
  | cons m ms ih => exact ih (k.apply m h)

lemma frame (k : FrameInvariant P)
    (h : P xs { e with
      mailbox := { e.mailbox with pending := (Mailbox.batch e.batchLimit e.mailbox.pending).2 } }) :
    P (xs ++ e.drain.performed) e.frame.2 :=
  k.publish (k.batch.perform (k.foldl_apply _ h))

end FrameInvariant

/-- Only messages and the owner turn these; a frame leaves them as it finds them when its messages are applied. -/
structure SameControls (e f : Emulator σ γ) : Prop where
  paused : f.paused = e.paused
  ipf : f.ipf = e.ipf
  batchLimit : f.batchLimit = e.batchLimit
  mailbox : f.mailbox = e.mailbox

lemma sameControls_cycle (e : Emulator σ γ) : SameControls e e.cycle.2 := by
  cases hc : e.cycle.1 with
  | error error =>
    rw [cycle_of_error hc]
    exact ⟨rfl, rfl, rfl, rfl⟩
  | ok i =>
    obtain ⟨r, -, -, hn⟩ := cycle_of_ok hc
    rw [hn, sound_eq]
    exact ⟨rfl, rfl, rfl, rfl⟩

omit [Host σ γ] in
lemma SameControls.trans {e f g : Emulator σ γ} (h : SameControls e f) (h' : SameControls f g) :
    SameControls e g :=
  ⟨h'.paused.trans h.paused, h'.ipf.trans h.ipf, h'.batchLimit.trans h.batchLimit, h'.mailbox.trans h.mailbox⟩

lemma sameControls_batch (e : Emulator σ γ) : BatchInvariant fun _ f => SameControls e f where
  announce h := h.trans ⟨rfl, rfl, rfl, rfl⟩
  abort _ h := h.trans ⟨rfl, rfl, rfl, rfl⟩
  cycle _ _ h := SameControls.trans (f := preview _) (h.trans ⟨rfl, rfl, rfl, rfl⟩) (sameControls_cycle _)
  windUp h := by
    rw [Emulator.windUp, sound_eq]
    exact h.trans ⟨rfl, rfl, rfl, rfl⟩

lemma sameControls_perform (e : Emulator σ γ) : SameControls e e.perform.2 :=
  @BatchInvariant.perform _ _ _ _ [] e (sameControls_batch e) ⟨rfl, rfl, rfl, rfl⟩

end Chip8.Emulator
