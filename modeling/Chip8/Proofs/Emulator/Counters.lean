import Chip8.Proofs.Emulator.Dormancy
import Chip8.Proofs.Emulator.Tone

/-! The two counters. The draw count numbers the screens that are shown, and what the host is told of an instruction
carries the number of screens shown by then. The cycle count is the number of cycles that succeeded. Neither goes back,
whatever is loaded, paused, reset or halted. -/

namespace Chip8

def Event.drawNumber {γ : Type} : Event γ → Option Nat
  | .draw n _ => some n
  | _ => none

/-- The screens among the events are numbered from zero up to `n`, and every instruction is announced with the number
of screens in front of it, of which there is one. -/
structure Dated {γ : Type} (events : List (Event γ)) (n : Nat) : Prop where
  draws : events.filterMap Event.drawNumber = List.range n
  decodes : ∀ i pc opcode k, events[i]? = some (.decode pc opcode k) →
    k = ((events.take i).filterMap Event.drawNumber).length ∧ 1 ≤ k

namespace Dated

variable {γ : Type} {events : List (Event γ)} {event : Event γ} {n : Nat}

lemma decodes_snoc (h : Dated events n) (hd : ∀ pc opcode k, event = .decode pc opcode k → k = n ∧ 1 ≤ n) :
    ∀ i pc opcode k, (events ++ [event])[i]? = some (.decode pc opcode k) →
      k = (((events ++ [event]).take i).filterMap Event.drawNumber).length ∧ 1 ≤ k := by
  intro i pc opcode k hi
  obtain ⟨hlt, hi⟩ | ⟨rfl, rfl⟩ := cases_of_getElem?_concat hi
  · rw [List.take_append_of_le_length (Nat.le_of_lt hlt)]
    exact h.decodes i pc opcode k hi
  · obtain ⟨rfl, hn⟩ := hd pc opcode k rfl
    rw [List.take_left, h.draws, List.length_range]
    exact ⟨rfl, hn⟩

lemma draw (h : Dated events n) (screen : Screen) : Dated (events ++ [.draw n screen]) (n + 1) where
  draws := by
    rw [List.filterMap_append, h.draws, List.range_succ]
    rfl
  decodes := h.decodes_snoc nofun

lemma decode (h : Dated events n) (hn : 1 ≤ n) (pc : UInt16) (opcode : Opcode) :
    Dated (events ++ [.decode pc opcode n]) n where
  draws := by
    rw [List.filterMap_append, h.draws]
    exact List.append_nil _
  decodes := h.decodes_snoc fun _ _ _ he => by
    cases he
    exact ⟨rfl, hn⟩

lemma aside (h : Dated events n) (he : event.fromLoop = false) : Dated (events ++ [event]) n where
  draws := by
    have hnone : event.drawNumber = none := by
      cases event with
      | draw n screen => cases he
      | _ => rfl
    rw [List.filterMap_append, h.draws, List.filterMap_cons_none hnone]
    exact List.append_nil _
  decodes := h.decodes_snoc fun _ _ _ hd => by
    subst hd
    cases he

end Dated

namespace Emulator

variable {σ γ : Type} [Host σ γ]

/-- What the frame loop does not do itself: at most one event, neither of a screen nor of an instruction. -/
inductive Aside (e f : Emulator σ γ) : Prop where
  | silent : f.drawCount = e.drawCount → f.host = e.host → Aside e f
  | told (event : Event γ) : f.drawCount = e.drawCount → event.fromLoop = false →
      f.host = Host.notify e.host event → Aside e f

lemma Aside.drawCount {e f : Emulator σ γ} (h : Aside e f) : f.drawCount = e.drawCount := by
  cases h with
  | silent hd | told _ hd => exact hd

lemma aside_sound {e f : Emulator σ γ} (t : Option Tone) (hd : f.drawCount = e.drawCount)
    (hh : f.host = e.host) : Aside e (f.sound t) := by
  cases t with
  | none => exact .silent hd hh
  | some t => exact .told (.tone t) hd rfl (congrArg (Host.notify · (.tone t)) hh)

lemma aside_reset (e : Emulator σ γ) : Aside e e.reset := by
  rw [reset]
  refine aside_sound _ ?_ ?_ <;> rfl

lemma aside_apply (e : Emulator σ γ) (m : Message γ) : Aside e (e.apply m) := by
  cases m with
  | pause =>
    rw [apply, pause]
    cases e.paused with
    | true => exact .silent rfl rfl
    | false => refine aside_sound _ ?_ ?_ <;> rfl
  | resume =>
    rw [apply, resume]
    cases e.paused with
    | true => refine aside_sound _ ?_ ?_ <;> rfl
    | false => exact .silent rfl rfl
  | swapRom rom =>
    simp only [apply, loadRom]
    cases checkRom rom with
    | error error => exact .silent rfl rfl
    | ok u => refine aside_sound _ ?_ ?_ <;> rfl
  | custom payload => exact .told (.custom payload) rfl rfl rfl
  | _ => exact .silent rfl rfl

lemma aside_cycle (e : Emulator σ γ) : Aside e e.cycle.2 := by
  cases hc : e.cycle.1 with
  | error error =>
    rw [cycle_of_error hc]
    exact .silent rfl rfl
  | ok i =>
    obtain ⟨r, -, -, hn⟩ := cycle_of_ok hc
    rw [hn]
    refine aside_sound _ ?_ ?_ <;> rfl

lemma aside_execute (e : Emulator σ γ) (i : Instruction) : Aside e (e.execute i).2 := by
  obtain he | ⟨r, -, he⟩ := execute_cases e i
  · rw [he]
    exact .silent rfl rfl
  · rw [he]
    refine aside_sound _ ?_ ?_ <;> rfl

lemma aside_windUp (e : Emulator σ γ) : Aside e e.windUp := by
  rw [windUp]
  refine aside_sound _ ?_ ?_ <;> rfl

section

omit [Host σ γ] in
def Numbered (e : Emulator (Recorder σ γ) γ) : Prop := Dated e.host.heard e.drawCount

variable {e f : Emulator (Recorder σ γ) γ}

lemma Numbered.aside (h : Numbered e) (ha : Aside e f) : Numbered f := by
  cases ha with
  | silent hd hh =>
    rw [Numbered, hd, hh]
    exact h
  | told event hd hl hh =>
    rw [Numbered, hd, hh]
    exact Dated.aside h hl

lemma Numbered.preview (h : Numbered e) (hn : 1 ≤ e.drawCount) : Numbered e.preview :=
  Dated.decode h hn ..

lemma Numbered.announce (h : Numbered e) : Numbered e.announce :=
  Dated.draw h e.machine.screen

lemma Numbered.aside_of_shown (h : Numbered e ∧ 1 ≤ e.drawCount) (ha : Aside e f) :
    Numbered f ∧ 1 ≤ f.drawCount :=
  ⟨h.1.aside ha, ha.drawCount ▸ h.2⟩

lemma numbered_batch : BatchInvariant fun _ (e : Emulator (Recorder σ γ) γ) => Numbered e ∧ 1 ≤ e.drawCount where
  announce h := ⟨h.1.announce, Nat.succ_pos _⟩
  abort _ h := ⟨h.1.preview h.2, h.2⟩
  cycle _ _ h := Numbered.aside_of_shown (e := preview _) ⟨h.1.preview h.2, h.2⟩ (aside_cycle _)
  windUp h := Numbered.aside_of_shown h (aside_windUp _)

lemma Numbered.perform (h : Numbered e) : Numbered e.perform.2 := by
  cases hh : e.halt with
  | some halt =>
    rw [perform_of_halt hh]
    exact h
  | none =>
    cases hp : e.paused with
    | true =>
      rw [perform_of_paused hh hp]
      exact h.announce
    | false =>
      have hb : Numbered (executeBatch e.ipf e.announce) ∧ 1 ≤ (executeBatch e.ipf e.announce).drawCount :=
        @BatchInvariant.executeBatch _ _ _ _ [] e.announce numbered_batch e.ipf hh hp
          ⟨h.announce, Nat.succ_pos _⟩
      rw [perform_of_running hh hp]
      cases (executeBatch e.ipf e.announce).halt with
      | some halt => exact hb.1
      | none => exact hb.1.aside (aside_windUp _)

lemma Numbered.foldl_apply (ms : List (Message γ)) (h : Numbered e) : Numbered (ms.foldl apply e) := by
  induction ms generalizing e with
  | nil => exact h
  | cons m ms ih => exact ih (h.aside (aside_apply e m))

lemma Numbered.act (a : Action γ) (h : Numbered e) : Numbered (e.act a) := by
  cases a with
  | trySend m | send m => exact submission_keeps (fun _ _ h => h) rfl h
  | frame =>
    have hd : Numbered e.drain := by
      rw [drain_eq_foldl]
      exact Numbered.foldl_apply _ h
    exact hd.perform
  | cycle => exact h.aside (aside_cycle e)
  | execute i => exact h.aside (aside_execute e i)
  | reset => exact h.aside (aside_reset e)
  | operate m => exact h.aside (aside_apply e m)

lemma Numbered.run (as : List (Action γ)) (h : Numbered e) : Numbered (e.run as) :=
  run_induction (fun _ a => Numbered.act a) h as

omit [Host σ γ] in
lemma recorded_numbered (font : Font) (host : σ) (config : Config) (key : ChaCha.Key) :
    Numbered (recorded font host config key : Emulator (Recorder σ γ) γ) where
  draws := rfl
  decodes := nofun

end

def succeeds (e : Emulator σ γ) : Bool := e.cycle.1.isOk

lemma cycles_sound (e : Emulator σ γ) (t : Option Tone) : (e.sound t).machine.cycles = e.machine.cycles := by
  rw [sound_eq]

lemma cycles_reset (e : Emulator σ γ) : e.reset.machine.cycles = e.machine.cycles :=
  cycles_sound _ _

lemma cycles_apply (e : Emulator σ γ) (m : Message γ) : (e.apply m).machine.cycles = e.machine.cycles := by
  rw [(apply_applies e m).machine]
  cases m with
  | swapRom rom =>
    rw [Message.machineAfter]
    split <;> rfl
  | _ => rfl

lemma cycles_cycle (e : Emulator σ γ) : e.cycle.2.machine.cycles = e.machine.cycles + [e].countP succeeds := by
  rw [List.countP_singleton, succeeds]
  cases hc : e.cycle.1 with
  | error error =>
    rw [cycle_of_error hc]
    rfl
  | ok i => exact cycle_counts hc

lemma cycles_execute (e : Emulator σ γ) (i : Instruction) :
    (e.execute i).2.machine.cycles = e.machine.cycles := by
  obtain he | ⟨r, hr, he⟩ := execute_cases e i
  · rw [he]
  · rw [he]
    exact (cycles_sound _ _).trans (Machine.execute_executes hr).cycles

lemma cycles_invariant (n : Nat) :
    FrameInvariant fun xs (e : Emulator σ γ) => e.machine.cycles = n + xs.countP succeeds where
  apply m h := (cycles_apply _ m).trans h
  announce h := h
  abort h := h
  cycle _ _ h := by
    rw [List.countP_append, ← Nat.add_assoc, ← h]
    exact cycles_cycle _
  windUp h := (cycles_sound _ _).trans h
  publish h := h

variable (e : Emulator σ γ)

lemma cycles_act (a : Action γ) :
    (e.act a).machine.cycles = e.machine.cycles + (e.attempted a).countP succeeds := by
  cases a with
  | trySend m | send m =>
    exact submission_keeps (P := fun f => f.machine.cycles = e.machine.cycles) (fun _ _ h => h) rfl rfl
  | frame => exact @FrameInvariant.frame _ _ _ _ [] e (cycles_invariant e.machine.cycles) rfl
  | cycle => exact cycles_cycle e
  | execute i => exact cycles_execute e i
  | reset => exact cycles_reset e
  | operate m => exact cycles_apply e m

lemma cycles_run (as : List (Action γ)) :
    (e.run as).machine.cycles = e.machine.cycles + (collect attempted e as).countP succeeds := by
  induction as generalizing e with
  | nil => rfl
  | cons a as ih =>
    rw [collect, List.countP_append, ← Nat.add_assoc, ← cycles_act]
    exact ih (e.act a)

/-- An action in which no cycle can succeed: all but a cycle that does not fail and a frame that is neither paused
nor halted behind its messages. -/
def Idles : Action γ → Prop
  | .frame => e.drain.halt ≠ none ∨ e.drain.paused = true
  | .cycle => e.succeeds = false
  | _ => True

lemma Idles.countP_attempted {e : Emulator σ γ} {a : Action γ} (h : e.Idles a) :
    (e.attempted a).countP succeeds = 0 := by
  cases a with
  | frame =>
    have hn : ¬ (e.drain.halt = none ∧ e.drain.paused = false) := by
      rintro ⟨hh, hp⟩
      rcases h with h | h
      · exact h hh
      · rw [hp] at h
        cases h
    rw [attempted, performed, if_neg hn]
    rfl
  | cycle =>
    have hf : e.succeeds = false := h
    rw [attempted, List.countP_singleton, hf]
    rfl
  | _ => rfl

theorem counters_exact (font : Font) (host : σ) (config : Config) (key : ChaCha.Key) (as : List (Action γ)) :
    let first : Emulator (Recorder σ γ) γ := recorded font host config key
    let e := first.run as
    Dated e.host.heard e.drawCount ∧
      e.machine.cycles = (collect attempted first as).countP succeeds ∧
      (∀ bs, e.machine.cycles ≤ (e.run bs).machine.cycles) ∧
      ∀ a, e.Idles a → (e.act a).machine.cycles = e.machine.cycles := by
  intro first e
  have hzero : first.machine.cycles = 0 := rfl
  refine ⟨(recorded_numbered font host config key).run as, ?_, fun bs => ?_, fun a ha => ?_⟩
  · rw [cycles_run, hzero, Nat.zero_add]
  · rw [cycles_run e]
    exact Nat.le_add_right _ _
  · rw [cycles_act, ha.countP_attempted, Nat.add_zero]

/-- A program that clears the screen, draws and fails in its second frame, halted for a third one and swapped for a
jump to itself. -/
def counting : List (Action Unit) :=
  [.operate (.swapRom [0x00, 0xE0, 0xD0, 0x01, 0xFF, 0xFF]), .send .resume, .frame, .frame, .frame, .reset,
    .operate (.swapRom [0x12, 0x00]), .cycle, .send .pause]

theorem counters_exact_counting :
    let e : Emulator (Recorder Silence Unit) Unit :=
      (recorded .standard Silence.mk {} (Vector.replicate 8 0)).run counting
    e.Idles .frame ∧ Dated e.host.heard 2 ∧ e.machine.cycles = 3 ∧
      (e.act .frame).machine.cycles = 3 ∧ (e.act .frame).drawCount = 3 := by
  intro e
  obtain ⟨hp, hd, hc, hn⟩ : e.drain.paused = true ∧ e.drawCount = 2 ∧ e.machine.cycles = 3 ∧
      (e.act .frame).drawCount = 3 := by decide +kernel
  obtain ⟨hdated, -, -, hidle⟩ := counters_exact .standard Silence.mk {} (Vector.replicate 8 0) counting
  subst e
  rw [hd] at hdated
  exact ⟨.inr hp, hdated, hc, (hidle .frame (.inr hp)).trans hc, hn⟩

end Emulator

end Chip8
