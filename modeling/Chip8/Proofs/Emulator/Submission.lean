import Chip8.Proofs.Emulator.RomSwap
import Chip8.Proofs.Emulator.Termination

/-! Submissions. What is turned away changes nothing, and what is let in takes effect when its turn comes, because it
is let in only where every machine can carry it out. What fails behind that is a fault of the machine. -/

namespace Chip8

variable {σ γ : Type}

namespace Error

def isInvalid : Error → Bool
  | romTooLarge .. | invalidKey _ => true
  | _ => false

lemma isFatal_of_isInvalid {error : Error} (h : error.isInvalid) : error.isFatal = false := by
  cases error with
  | romTooLarge size max => rfl
  | invalidKey key => rfl
  | _ => cases h

end Error

namespace Message

variable {m : Message γ} {error : Error}

lemma isInvalid_of_validate (h : m.validate = .error error) : error.isInvalid := by
  cases m with
  | swapRom rom =>
    rw [validate, checkRom] at h
    split at h <;> cases h
    rfl
  | setKey key down =>
    rw [validate, checkKey] at h
    split at h <;> cases h
    rfl
  | _ => cases h

lemma length_le_of_validate {rom : List UInt8} (h : (swapRom rom : Message γ).validate = .ok ()) :
    rom.length ≤ maxRomSize := by
  rw [validate, checkRom] at h
  split at h
  · assumption
  · cases h

lemma key_lt_of_validate {key : UInt8} {down : Bool} (h : (setKey key down : Message γ).validate = .ok ()) :
    key.toNat < Keypad.size := by
  rw [validate, checkKey] at h
  split at h
  · assumption
  · cases h

end Message

namespace Link

/-- The answers to a submission, each with the state of affairs in which it is given. -/
inductive Answered (l : Link σ γ) (m : Message γ) : Except Error (Link σ γ) → Prop
  | invalid {error : Error} : m.validate = .error error → Answered l m (.error error)
  | disconnected {last : Option Snapshot} : m.validate = .ok () → l = .gone last →
      Answered l m (.error .disconnected)
  | full {e : Emulator σ γ} : m.validate = .ok () → l = .live e → e.mailbox.isFull →
      Answered l m (.error .queueFull)
  | posted {e : Emulator σ γ} : m.validate = .ok () → l = .live e → ¬ e.mailbox.isFull →
      Answered l m (.ok (.live { e with mailbox := e.mailbox.post m }))

/-- A submission is refused because of the message first, then because the emulator is gone, then because there is no
room; a sender that may wait does so in this last case. -/
structure Judged (l : Link σ γ) (m : Message γ) : Prop where
  invalid : ∀ error, m.validate = .error error ↔ error.isInvalid ∧ l.trySend m = .error error
  disconnected : l.trySend m = .error .disconnected ↔ m.validate = .ok () ∧ ∃ last, l = .gone last
  full : l.trySend m = .error .queueFull ↔ m.validate = .ok () ∧ ∃ e, l = .live e ∧ e.mailbox.isFull
  posted : ∀ next, l.trySend m = .ok next ↔ m.validate = .ok () ∧ ∃ e, l = .live e ∧ ¬ e.mailbox.isFull ∧
    next = .live { e with mailbox := e.mailbox.post m }
  harmless : ∀ error, l.trySend m = .error error → error.isFatal = false
  send_refused : ∀ error, l.send m = .error error ↔ l.trySend m = .error error ∧ error ≠ .queueFull
  send_waits : l.send m = .ok none ↔ l.trySend m = .error .queueFull
  send_posts : ∀ next, l.send m = .ok (some next) ↔ l.trySend m = .ok next

variable (l : Link σ γ) (m : Message γ)

lemma trySend_answered : Answered l m (l.trySend m) := by
  simp only [trySend]
  cases hv : m.validate with
  | error error => exact .invalid hv
  | ok u =>
    cases l with
    | gone last => exact .disconnected hv rfl
    | live e =>
      by_cases hf : e.mailbox.isFull
      · simp only [if_pos hf]
        exact .full hv rfl hf
      · simp only [if_neg hf]
        exact .posted hv rfl hf

variable {l m}

lemma Answered.not_isFatal {error : Error} (h : Answered l m (.error error)) : error.isFatal = false := by
  cases h with
  | invalid hv => exact Error.isFatal_of_isInvalid (Message.isInvalid_of_validate hv)
  | disconnected | full => rfl

lemma Answered.validate_of_isInvalid {error : Error} (h : Answered l m (.error error)) (hi : error.isInvalid) :
    m.validate = .error error := by
  cases h with
  | invalid hv => exact hv
  | disconnected | full => cases hi

lemma Answered.validate_of_posted {next : Link σ γ} (h : Answered l m (.ok next)) : m.validate = .ok () := by
  cases h with
  | posted hv => exact hv

variable (l m)

lemma trySend_disconnected_iff :
    l.trySend m = .error .disconnected ↔ m.validate = .ok () ∧ ∃ last, l = .gone last := by
  constructor
  · intro ht
    have h := trySend_answered l m
    rw [ht] at h
    cases h with
    | invalid hv => cases Message.isInvalid_of_validate hv
    | disconnected hv hl => exact ⟨hv, _, hl⟩
  · rintro ⟨hv, last, rfl⟩
    simp only [trySend, hv]

lemma trySend_full_iff :
    l.trySend m = .error .queueFull ↔ m.validate = .ok () ∧ ∃ e, l = .live e ∧ e.mailbox.isFull := by
  constructor
  · intro ht
    have h := trySend_answered l m
    rw [ht] at h
    cases h with
    | invalid hv => cases Message.isInvalid_of_validate hv
    | full hv hl hf => exact ⟨hv, _, hl, hf⟩
  · rintro ⟨hv, e, rfl, hf⟩
    simp only [trySend, hv, if_pos hf]

lemma trySend_posted_iff (next : Link σ γ) :
    l.trySend m = .ok next ↔ m.validate = .ok () ∧ ∃ e, l = .live e ∧ ¬ e.mailbox.isFull ∧
      next = .live { e with mailbox := e.mailbox.post m } := by
  constructor
  · intro ht
    have h := trySend_answered l m
    rw [ht] at h
    cases h with
    | posted hv hl hf => exact ⟨hv, _, hl, hf, rfl⟩
  · rintro ⟨hv, e, rfl, hf, rfl⟩
    simp only [trySend, hv, if_neg hf]

lemma judged : Judged l m where
  invalid error := by
    constructor
    · intro hv
      exact ⟨Message.isInvalid_of_validate hv, by simp only [trySend, hv]⟩
    · rintro ⟨hi, ht⟩
      exact (ht ▸ trySend_answered l m).validate_of_isInvalid hi
  disconnected := trySend_disconnected_iff l m
  full := trySend_full_iff l m
  posted := trySend_posted_iff l m
  harmless error ht := (ht ▸ trySend_answered l m).not_isFatal
  send_refused error := by
    rw [send]
    cases l.trySend m with
    | ok next => simp
    | error error' => cases error' <;> simp +contextual [eq_comm]
  send_waits := by
    rw [send]
    cases l.trySend m with
    | ok next => simp
    | error error => cases error <;> simp
  send_posts next := by
    rw [send]
    cases l.trySend m with
    | ok next' => simp
    | error error => cases error <;> simp

end Link

namespace Machine

variable {m : Machine} {i : Instruction} {error : Error}

lemma isFatal_of_execute (h : m.execute i = .error error) : error.isFatal := by
  cases i with
  | ret =>
    simp only [execute] at h
    split at h
    · cases h
    · rename_i hp
      cases h
      rw [(CallStack.pop_eq_error_iff.1 hp).2]
      rfl
  | call target =>
    simp only [execute] at h
    split at h
    · cases h
    · rename_i hp
      cases h
      rw [(CallStack.push_eq_error_iff.1 hp).2]
      rfl
  | _ => cases h

lemma isFatal_of_step (h : m.step = .error error) : error.isFatal := by
  simp only [step] at h
  split at h
  · cases h
    rfl
  · split at h
    · cases h
    · rename_i he
      cases h
      exact isFatal_of_execute he

end Machine

namespace Emulator

variable [Host σ γ]

/-- What a message asks for comes about when it is applied. -/
def Effected (e : Emulator σ γ) (m : Message γ) : Prop :=
  match m with
  | .pause => (e.apply m).paused = true
  | .resume => (e.apply m).paused = false
  | .swapRom rom => e.loadRom rom = .ok (e.apply m) ∧ Renewed rom e (e.apply m)
  | .setIpf ipf => (e.apply m).ipf = ipf
  | .setMemory address data => (e.apply m).machine.memory = e.machine.memory.poke address data
  | .setKey key down => key.toNat < Keypad.size ∧ (e.apply m).machine.keypad.pressed key = down ∧
      (down = false → (e.apply m).machine.keypad.lastReleased = some key)
  | .stop => (e.apply m).halt = some .stopped
  | .custom payload => (e.apply m).host = Host.notify e.host (.custom payload)

variable {e : Emulator σ γ} {m : Message γ} {error : Error}

lemma effected_of_validate (e : Emulator σ γ) (h : m.validate = .ok ()) : e.Effected m := by
  cases m with
  | pause | resume => exact (apply_applies e _).paused
  | swapRom rom =>
    have hr := Message.length_le_of_validate h
    have hl := e.loadRom_of_le hr
    have ha : e.apply (.swapRom rom) = e.renew rom := by
      rw [apply, hl]
      rfl
    rw [Effected, ha]
    exact ⟨hl, e.renew_renewed hr⟩
  | setKey key down =>
    have hk := Message.key_lt_of_validate h
    refine ⟨hk, ?_, ?_⟩
    · exact (Keypad.pressed_set ..).trans (if_pos ⟨rfl, hk⟩)
    · rintro rfl
      exact (Keypad.lastReleased_set ..).trans (if_pos ⟨hk, rfl⟩)
  | _ => rfl

lemma apply_of_invalid (e : Emulator σ γ) (h : m.validate = .error error) : e.apply m = e := by
  cases m with
  | swapRom rom =>
    rw [apply, loadRom]
    have hc : checkRom rom = .error error := h
    rw [hc]
    rfl
  | setKey key down =>
    have hk : ¬ key.toNat < Keypad.size := by
      intro hk
      simp only [Message.validate, checkKey, if_pos hk] at h
      cases h
    rw [apply, setKey, Keypad.set, dif_neg hk]
  | _ => cases h

omit [Host σ γ] in
lemma validate_of_accepted {a : Action γ} (h : m ∈ e.accepted a) : m.validate = .ok () := by
  cases a with
  | trySend n =>
    simp only [accepted] at h
    cases ht : (Link.live e).trySend n with
    | error error => simp [ht] at h
    | ok next =>
      rw [ht] at h
      rw [List.mem_singleton.1 h]
      exact (ht ▸ Link.trySend_answered _ n).validate_of_posted
  | send n =>
    simp only [accepted] at h
    split at h
    · rename_i next hs
      have ht := ((Link.judged _ n).send_posts next).1 hs
      rw [List.mem_singleton.1 h]
      exact (ht ▸ Link.trySend_answered _ n).validate_of_posted
    all_goals cases h
  | _ => cases h

lemma validate_of_collect_accepted (e : Emulator σ γ) (as : List (Action γ)) :
    ∀ m ∈ collect accepted e as, m.validate = .ok () := by
  induction as generalizing e with
  | nil => exact List.forall_mem_nil _
  | cons a as ih => exact List.forall_mem_append.2 ⟨fun m => validate_of_accepted, ih (e.act a)⟩

structure Unmoved (e : Emulator σ γ) (m : Message γ) : Prop where
  trySend : ∀ error, (Link.live e).trySend m = .error error → e.act (.trySend m) = e
  send : ∀ error, (Link.live e).send m = .error error → e.act (.send m) = e

lemma unmoved (e : Emulator σ γ) (m : Message γ) : e.Unmoved m := by
  constructor
  · intro error h
    simp only [act, h]
  · intro error h
    simp only [act, h]

/-- Whatever fails in an emulator is a fault of its machine. -/
structure FailsFatally (e : Emulator σ γ) : Prop where
  cycle : ∀ error, e.cycle.1 = .error error → error.isFatal
  execute : ∀ i error, (e.execute i).1 = .failed error → error.isFatal
  frame : ∀ error, e.frame.1 = .fault error → error.isFatal
  run : ∀ n error, (e.runWithin n).1 = some (.error error) → error.isFatal

lemma isFatal_of_cycle (h : e.cycle.1 = .error error) : error.isFatal := by
  simp only [cycle] at h
  cases hs : e.machine.step with
  | ok step =>
    rw [hs] at h
    cases h
  | error error' =>
    rw [hs] at h
    cases h
    exact Machine.isFatal_of_step hs

lemma isFatal_of_execute_failed {i : Instruction} (h : (e.execute i).1 = .failed error) : error.isFatal := by
  rw [execute] at h
  split at h
  · split at h
    · cases h
    · rename_i he
      cases h
      exact Machine.isFatal_of_execute he
  · cases h

def HaltsFatally (e : Emulator σ γ) : Prop :=
  HaltsOnly (fun halt => ∀ error, halt = .fault error → error.isFatal) e

namespace HaltsFatally

lemma of_cycle (hc : e.cycle.1 = .error error) : ∀ error', Halt.fault error = .fault error' → error'.isFatal := by
  intro error' h
  cases h
  exact isFatal_of_cycle hc

lemma frame (h : HaltsFatally e) : HaltsFatally e.frame.2 := by
  refine HaltsOnly.frame h ?_ ?_ fun _ _ => of_cycle
  · intro m _ _ error hs
    cases hs
  · intro e _ error hs
    cases hs

lemma act (a : Action γ) (h : HaltsFatally e) : HaltsFatally (e.act a) := by
  cases a with
  | trySend m | send m => exact submission_keeps (fun _ _ h => h) rfl h
  | frame => exact h.frame
  | cycle => exact HaltsOnly.cycle h fun _ => of_cycle
  | execute i => exact HaltsOnly.execute i h
  | reset =>
    intro halt hh
    rw [Emulator.act, reset, sound_eq] at hh
    cases hh
  | operate m =>
    refine HaltsOnly.apply h fun _ error hs => ?_
    cases hs

lemma run (as : List (Action γ)) (h : HaltsFatally e) : HaltsFatally (e.run as) :=
  run_induction (fun _ a => HaltsFatally.act a) h as

lemma runWithin (n : Nat) (h : HaltsFatally e) : HaltsFatally (e.runWithin n).2 :=
  runWithin_induction (fun _ => HaltsFatally.frame) h n

lemma failsFatally (h : HaltsFatally e) : FailsFatally e where
  cycle _ := isFatal_of_cycle
  execute _ _ := isFatal_of_execute_failed
  frame error hf := by
    rw [frame_outcome] at hf
    cases hh : e.frame.2.halt with
    | none =>
      rw [hh] at hf
      cases hp : e.frame.2.paused <;> simp [hp] at hf
    | some halt =>
      cases halt with
      | fault error' =>
        rw [hh] at hf
        cases hf
        exact h.frame _ hh error rfl
      | stopped | aborted => simp [hh, Outcome.ofHalt] at hf
  run n error hr := by
    obtain ⟨halt, hh, he⟩ := halt_of_runWithin (Prod.ext hr rfl)
    cases halt with
    | fault error' =>
      cases he
      exact h.runWithin n _ hh error rfl
    | stopped | aborted => cases he

end HaltsFatally

theorem submissions_take_effect (font : Font) (host : σ) (config : Config) (key : ChaCha.Key)
    (as : List (Action γ)) :
    let first : Emulator σ γ := create font host config key
    let e := first.run as
    (∀ m ∈ collect applied first as ++ e.mailbox.pending, m.validate = .ok ()) ∧
      (∀ (f : Emulator σ γ) (m : Message γ), (m.validate = .ok () → f.Effected m) ∧
        ∀ error, m.validate = .error error → f.apply m = f) ∧
      (∀ f : Emulator σ γ, f.drain = (f.applied .frame).foldl apply { f with
        mailbox := { f.mailbox with pending := (Mailbox.batch f.batchLimit f.mailbox.pending).2 } }) ∧
      (∀ (l : Link σ γ) (m : Message γ), l.Judged m) ∧
      (∀ (f : Emulator σ γ) (m : Message γ), f.Unmoved m) ∧ e.FailsFatally := by
  intro first e
  refine ⟨fun m hm => ?_, fun f m => ⟨f.effected_of_validate, fun _ => f.apply_of_invalid⟩, drain_eq_foldl,
    Link.judged, unmoved, ?_⟩
  · have hc : collect applied first as ++ e.mailbox.pending = .pause :: collect accepted first as :=
      run_conserves first as
    rw [hc] at hm
    rcases List.mem_cons.1 hm with rfl | hm
    · rfl
    · exact validate_of_collect_accepted first as m hm
  · have hf : HaltsFatally first := nofun
    exact (hf.run as).failsFatally

/-- A mailbox with room for one message only, in which a pause waits, and a program that has failed at once. -/
theorem submissions_take_effect_full :
    let e : Emulator Silence Unit :=
      (create .standard {} { queueCapacity := 1 } (Vector.replicate 8 0)).run
        [.operate (.swapRom [0xFF, 0xFF]), .cycle]
    (Link.live e).trySend (.setKey 16 true) = .error (.invalidKey 16) ∧
      (Link.live e).drop.trySend (.setKey 16 true) = .error (.invalidKey 16) ∧
      (Link.live e).drop.trySend .resume = .error .disconnected ∧
      (Link.live e).trySend .resume = .error .queueFull ∧ e.act (.trySend .resume) = e ∧
      e.mailbox.pending = [.pause] ∧ e.Effected .pause ∧
      e.frame.1 = .fault (.unknownOpcode 0xFFFF 0x200) ∧ (Error.unknownOpcode 0xFFFF 0x200).isFatal := by
  intro e
  obtain ⟨hvalid, heffect, hdrain, hjudged, hunmoved, hfails⟩ := submissions_take_effect .standard Silence.mk
    { queueCapacity := 1 } (Vector.replicate 8 0) [.operate (.swapRom [0xFF, 0xFF]), .cycle]
  obtain ⟨hroom, hpending, hfault⟩ : e.mailbox.isFull = true ∧ e.mailbox.pending = [.pause] ∧
      e.frame.1 = .fault (.unknownOpcode 0xFFFF 0x200) := by decide +kernel
  have hfull : (Link.live e).trySend .resume = .error .queueFull :=
    (hjudged (.live e) .resume).full.2 ⟨rfl, e, rfl, hroom⟩
  refine ⟨?_, ?_, ?_, hfull, (hunmoved e .resume).trySend _ hfull, hpending, ?_, hfault, hfails.frame _ hfault⟩
  · exact ((hjudged (.live e) (.setKey 16 true)).invalid _).1 rfl |>.2
  · exact ((hjudged (Link.live e).drop (.setKey 16 true)).invalid _).1 rfl |>.2
  · exact (hjudged (Link.live e).drop .resume).disconnected.2 ⟨rfl, e.published, rfl⟩
  · exact (heffect e .pause).1 rfl

end Emulator

end Chip8
