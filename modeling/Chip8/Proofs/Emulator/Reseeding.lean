import Chip8.Proofs.Emulator.Run
import Chip8.Proofs.Machine.Reseeding

/-! Emulators that differ in their random words alone. They do the same and answer the same as long as no instruction
takes a word. -/

namespace Chip8

/-- What the one who acts on an emulator is told. -/
inductive Answer where
  | done
  | waiting
  | refused (error : Error)
  | outcome (outcome : Outcome)
  | result (result : Except Error Instruction)
  | verdict (verdict : Emulator.Verdict)

namespace Emulator

variable {σ γ : Type}

def reseeded (e : Emulator σ γ) (w : Random) : Emulator σ γ := { e with machine := e.machine.reseeded w }

variable [Host σ γ]

/-- The instructions that an action executes, in order. -/
def executions (e : Emulator σ γ) : Action γ → List Execution
  | .execute i => if e.machine.accepts i then e.machine.executing i else []
  | a => (e.attempted a).flatMap (·.machine.stepping)

def answers (e : Emulator σ γ) : Action γ → List Answer
  | .trySend m =>
    match (Link.live e).trySend m with
    | .ok _ => [.done]
    | .error error => [.refused error]
  | .send m =>
    match (Link.live e).send m with
    | .ok (some _) => [.done]
    | .ok none => [.waiting]
    | .error error => [.refused error]
  | .frame => [.outcome e.frame.1]
  | .cycle => [.result e.cycle.1]
  | .execute i => [.verdict (e.execute i).1]
  | .operate (.swapRom rom) =>
    match e.loadRom rom with
    | .ok _ => [.done]
    | .error error => [.refused error]
  | .reset | .operate _ => [.done]

/-- No instruction among the executions takes a random word. -/
def Wordless (xs : List Execution) : Prop := ∀ x ∈ xs, x.takesWord = false

variable (w : Random)

lemma sound_reseeded (e : Emulator σ γ) (t : Option Tone) : (e.reseeded w).sound t = (e.sound t).reseeded w := by
  cases t <;> rfl

lemma take_reseeded (e : Emulator σ γ) (r : Effect) :
    (e.reseeded w).take { r with machine := r.machine.reseeded w } = (e.take r).reseeded w :=
  sound_reseeded w { e with machine := r.machine } r.tone

lemma windUp_reseeded (e : Emulator σ γ) : (e.reseeded w).windUp = e.windUp.reseeded w := by
  simp only [windUp, sound_eq]
  rfl

lemma reset_reseeded (e : Emulator σ γ) : (e.reseeded w).reset = e.reset.reseeded w := by
  simp only [reset, sound_eq]
  rfl

lemma loadRom_reseeded (e : Emulator σ γ) (rom : List UInt8) :
    (e.reseeded w).loadRom rom = (e.loadRom rom).map (·.reseeded w) := by
  simp only [loadRom]
  cases checkRom rom with
  | error error => rfl
  | ok u => exact congrArg Except.ok (reset_reseeded w { e with machine := e.machine.loadRom rom, rom := rom })

lemma apply_reseeded (e : Emulator σ γ) (m : Message γ) : (e.reseeded w).apply m = (e.apply m).reseeded w := by
  have hp : (e.reseeded w).paused = e.paused := rfl
  cases m with
  | pause =>
    simp only [apply, pause, hp, sound_eq]
    cases e.paused <;> rfl
  | resume =>
    simp only [apply, resume, hp, sound_eq]
    cases e.paused <;> rfl
  | swapRom rom =>
    rw [apply, apply, loadRom_reseeded]
    cases e.loadRom rom <;> rfl
  | _ => rfl

lemma foldl_reseeded (e : Emulator σ γ) (ms : List (Message γ)) :
    ms.foldl apply (e.reseeded w) = (ms.foldl apply e).reseeded w := by
  induction ms generalizing e with
  | nil => rfl
  | cons m ms ih => rw [List.foldl_cons, apply_reseeded, ih, List.foldl_cons]

lemma drain_reseeded (e : Emulator σ γ) : (e.reseeded w).drain = e.drain.reseeded w := by
  simp only [drain]
  exact foldl_reseeded w
    { e with mailbox := { e.mailbox with pending := (Mailbox.batch e.batchLimit e.mailbox.pending).2 } } _

variable {w} {e : Emulator σ γ}

lemma cycle_reseeded (h : Wordless e.machine.stepping) :
    (e.reseeded w).cycle = (e.cycle.1, e.cycle.2.reseeded w) := by
  have hs : (e.reseeded w).machine.step = _ := Machine.step_reseeded h w
  simp only [cycle, hs]
  cases e.machine.step with
  | error error => rfl
  | ok s => exact congrArg (Prod.mk _) (take_reseeded w e s.toEffect)

lemma execute_reseeded {i : Instruction} (h : Wordless (e.executions (.execute i))) :
    (e.reseeded w).execute i = ((e.execute i).1, (e.execute i).2.reseeded w) := by
  have ha : (e.reseeded w).machine.accepts i = e.machine.accepts i := by cases i <;> rfl
  rw [execute, execute, ha]
  rw [executions] at h
  cases hc : e.machine.accepts i with
  | false => rfl
  | true =>
    rw [hc] at h
    have hx : (e.reseeded w).machine.execute i = _ := Machine.execute_reseeded (Machine.takesWord_of_executing h) _ w
    simp only [if_true, hx]
    cases e.machine.execute i with
    | error error => rfl
    | ok r => exact congrArg (Prod.mk _) (take_reseeded w e r)

lemma executeBatch_reseeded (n : Nat) (h : Wordless ((attempts n e).flatMap (·.machine.stepping))) :
    executeBatch n (e.reseeded w) = (executeBatch n e).reseeded w := by
  induction n generalizing e with
  | zero => rfl
  | succ n ih =>
    have ha : (e.reseeded w).aborts = e.aborts := rfl
    rw [attempts] at h
    rw [executeBatch, executeBatch, ha]
    cases hc : e.aborts with
    | true => rfl
    | false =>
      rw [hc, if_neg Bool.false_ne_true, List.flatMap_cons] at h
      obtain ⟨hfirst, hrest⟩ := List.forall_mem_append.1 h
      have hcycle : (e.reseeded w).preview.cycle = _ := cycle_reseeded (e := e.preview) (w := w) hfirst
      rw [hcycle]
      cases hx : e.preview.cycle with
      | mk result next =>
        rw [hx] at hrest
        cases result with
        | error error => rfl
        | ok i =>
          cases hi : i.isDraw with
          | true => simp [hi]
          | false =>
            simp only [hi, Bool.false_eq_true, if_false] at hrest ⊢
            exact ih hrest

lemma perform_reseeded (h : Wordless (e.performed.flatMap (·.machine.stepping))) :
    (e.reseeded w).perform = (e.perform.1, e.perform.2.reseeded w) := by
  cases hh : e.halt with
  | some halt => rw [perform_of_halt hh, perform_of_halt (e := e.reseeded w) hh]
  | none =>
    cases hp : e.paused with
    | true =>
      rw [perform_of_paused hh hp, perform_of_paused (e := e.reseeded w) hh hp]
      rfl
    | false =>
      rw [performed, if_pos ⟨hh, hp⟩] at h
      have hb : executeBatch e.ipf (e.reseeded w).announce = _ := executeBatch_reseeded e.ipf h
      rw [perform_of_running hh hp, perform_of_running (e := e.reseeded w) hh hp,
        show (e.reseeded w).ipf = e.ipf from rfl, hb]
      have hk : ((executeBatch e.ipf e.announce).reseeded w).halt = (executeBatch e.ipf e.announce).halt := rfl
      rw [hk]
      cases (executeBatch e.ipf e.announce).halt with
      | some halt => rfl
      | none => exact congrArg (Prod.mk _) (windUp_reseeded w _)

lemma frame_reseeded (h : Wordless (e.executions .frame)) :
    (e.reseeded w).frame = (e.frame.1, e.frame.2.reseeded w) := by
  have hp : (e.drain.reseeded w).perform = _ := perform_reseeded h
  rw [frame, drain_reseeded, hp]
  rfl

lemma act_reseeded {a : Action γ} (h : Wordless (e.executions a)) :
    (e.reseeded w).answers a = e.answers a ∧ (e.reseeded w).act a = (e.act a).reseeded w := by
  cases a with
  | trySend m =>
    simp only [answers, act, Link.trySend, show (e.reseeded w).mailbox = e.mailbox from rfl]
    cases m.validate with
    | error error => exact ⟨rfl, rfl⟩
    | ok u => cases e.mailbox.isFull <;> exact ⟨rfl, rfl⟩
  | send m =>
    simp only [answers, act, Link.send, Link.trySend, show (e.reseeded w).mailbox = e.mailbox from rfl]
    cases m.validate with
    | error error => cases error <;> exact ⟨rfl, rfl⟩
    | ok u => cases e.mailbox.isFull <;> exact ⟨rfl, rfl⟩
  | frame =>
    have hf := frame_reseeded (w := w) h
    simp only [answers, act, hf, and_self]
  | cycle =>
    have hc : e.executions .cycle = e.machine.stepping := List.append_nil _
    rw [hc] at h
    simp only [answers, act, cycle_reseeded h, and_self]
  | execute i => simp only [answers, act, execute_reseeded h, and_self]
  | reset => exact ⟨rfl, reset_reseeded w e⟩
  | operate m =>
    refine ⟨?_, apply_reseeded w e m⟩
    cases m with
    | swapRom rom =>
      simp only [answers, loadRom_reseeded]
      cases e.loadRom rom <;> rfl
    | _ => rfl

lemma run_reseeded {as : List (Action γ)} (h : Wordless (collect executions e as)) :
    collect answers (e.reseeded w) as = collect answers e as ∧ (e.reseeded w).run as = (e.run as).reseeded w := by
  induction as generalizing e with
  | nil => exact ⟨rfl, rfl⟩
  | cons a as ih =>
    obtain ⟨hfirst, hrest⟩ := List.forall_mem_append.1 h
    obtain ⟨hanswers, hact⟩ := act_reseeded (w := w) hfirst
    obtain ⟨hlater, hrun⟩ := ih hrest
    rw [collect, collect, hanswers, hact, hlater]
    exact ⟨rfl, (congrArg (run · as) hact).trans hrun⟩

end Emulator

end Chip8
