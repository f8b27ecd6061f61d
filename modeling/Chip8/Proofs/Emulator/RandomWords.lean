import Chip8.Proofs.Emulator.Apply
import Chip8.Proofs.Emulator.Reseeding

/-! Random words in a run. The instructions that take a word take them in the order of the stream, from the first one
on. No other instruction moves the stream, and neither does a program, a reset, a pause or a fault. -/

namespace Chip8

/-- The state of a stream from which executions have taken words. -/
def Random.behind (key : ChaCha.Key) (xs : List Execution) : Random := ⟨key, xs.countP Execution.takesWord⟩

/-- The executions of a run take their words from the stream of a key, which is at `w` behind them. -/
structure Streamed (key : ChaCha.Key) (xs : List Execution) (w : Random) : Prop where
  reached : w = .behind key xs
  before : ∀ n (x : Execution), xs[n]? = some x → x.before.random = .behind key (xs.take n)
  after : ∀ n (x : Execution), xs[n]? = some x → x.after.random = .behind key (xs.take (n + 1))
  sets : ∀ n (x : Execution), (xs.filter Execution.takesWord)[n]? = some x →
    ∃ y mask, x.instruction = .random y mask ∧ x.after.reg y = (Random.word key n).toUInt8 &&& mask

namespace Streamed

variable {key : ChaCha.Key} {xs : List Execution} {m : Machine} {i : Instruction} {r : Effect}

lemma reached_snoc (h : Streamed key xs m.random) (hx : m.execute i = .ok r) :
    r.machine.random = .behind key (xs ++ [Execution.mk i m r.machine]) := by
  rw [Machine.random_of_execute hx, h.reached, Random.behind, Random.behind, List.countP_append,
    List.countP_singleton, Execution.takesWord]
  cases i.takesWord <;> rfl

lemma sets_snoc (h : Streamed key xs m.random) (hx : m.execute i = .ok r) :
    ∀ n (x : Execution), ((xs ++ [Execution.mk i m r.machine]).filter Execution.takesWord)[n]? = some x →
      ∃ y mask, x.instruction = .random y mask ∧ x.after.reg y = (Random.word key n).toUInt8 &&& mask := by
  intro n x hn
  rw [List.filter_append] at hn
  cases i with
  | random y mask =>
    obtain ⟨-, hn⟩ | ⟨rfl, rfl⟩ := cases_of_getElem?_concat hn
    · exact h.sets n x hn
    · obtain ⟨k, hk, -, hset⟩ := m.execute_random y mask
      rw [hx] at hk
      cases hk
      refine ⟨y, mask, rfl, ?_⟩
      rw [← List.countP_eq_length_filter]
      rw [h.reached] at hset
      exact hset
  | _ => exact h.sets n x (by rwa [List.filter_cons_of_neg Bool.false_ne_true, List.filter_nil, List.append_nil] at hn)

lemma snoc (h : Streamed key xs m.random) (hx : m.execute i = .ok r) :
    Streamed key (xs ++ [⟨i, m, r.machine⟩]) r.machine.random := by
  refine ⟨h.reached_snoc hx, fun n x hn => ?_, fun n x hn => ?_, h.sets_snoc hx⟩
  · obtain ⟨hlt, hn⟩ | ⟨rfl, rfl⟩ := cases_of_getElem?_concat hn
    · rw [List.take_append_of_le_length (Nat.le_of_lt hlt)]
      exact h.before n x hn
    · rw [List.take_left]
      exact h.reached
  · obtain ⟨hlt, hn⟩ | ⟨rfl, rfl⟩ := cases_of_getElem?_concat hn
    · rw [List.take_append_of_le_length hlt]
      exact h.after n x hn
    · rw [List.take_of_length_le (by simp)]
      exact h.reached_snoc hx

end Streamed

namespace Emulator

variable {σ γ : Type} [Host σ γ] {key : ChaCha.Key} {xs : List Execution} {e : Emulator σ γ}

lemma random_sound (e : Emulator σ γ) (t : Option Tone) : (e.sound t).machine.random = e.machine.random := by
  rw [sound_eq]

lemma random_apply (e : Emulator σ γ) (m : Message γ) : (e.apply m).machine.random = e.machine.random := by
  rw [(apply_applies e m).machine]
  cases m with
  | swapRom rom =>
    rw [Message.machineAfter]
    split <;> rfl
  | _ => rfl

lemma streamed_cycle (h : Streamed key xs e.machine.random) :
    Streamed key (xs ++ e.machine.stepping) e.cycle.2.machine.random := by
  cases hd : Instruction.decode e.machine.opcode with
  | none =>
    simp only [cycle, Machine.step, Machine.stepping, hd, List.append_nil]
    exact h
  | some i =>
    cases hx : e.machine.fetched.execute i with
    | error error =>
      simp only [cycle, Machine.step, Machine.stepping, Machine.executing, hd, hx, List.append_nil]
      exact h
    | ok r =>
      simp only [cycle, Machine.step, Machine.stepping, Machine.executing, hd, hx, take, random_sound]
      exact Streamed.snoc (m := e.machine.fetched) h hx

lemma streamed_execute (i : Instruction) (h : Streamed key xs e.machine.random) :
    Streamed key (xs ++ e.executions (.execute i)) (e.execute i).2.machine.random := by
  simp only [execute, executions, Machine.executing]
  cases e.machine.accepts i with
  | false => rwa [if_neg Bool.false_ne_true, if_neg Bool.false_ne_true, List.append_nil]
  | true =>
    cases hx : e.machine.execute i with
    | error error => rwa [if_pos rfl, if_pos rfl, List.append_nil]
    | ok r =>
      simp only [if_true, take, random_sound]
      exact h.snoc hx

lemma streamed_frame (key : ChaCha.Key) (xs : List Execution) : FrameInvariant fun ys (e : Emulator σ γ) =>
    Streamed key (xs ++ ys.flatMap (·.machine.stepping)) e.machine.random where
  apply m h := by rwa [random_apply]
  announce h := h
  abort h := h
  cycle _ _ h := by
    rw [List.flatMap_append, List.flatMap_singleton, ← List.append_assoc]
    exact streamed_cycle h
  windUp h := by rwa [windUp, random_sound]
  publish h := h

lemma streamed_act (a : Action γ) (h : Streamed key xs e.machine.random) :
    Streamed key (xs ++ e.executions a) (e.act a).machine.random := by
  have hnone : Streamed key (xs ++ []) e.machine.random := by rwa [List.append_nil]
  cases a with
  | trySend m | send m =>
    exact submission_keeps (P := fun f => Streamed key (xs ++ []) f.machine.random) (fun _ _ h => h) rfl hnone
  | frame =>
    have hfirst : Streamed key (xs ++ ([] : List (Emulator σ γ)).flatMap (·.machine.stepping)) e.machine.random :=
      hnone
    exact (streamed_frame key xs).frame hfirst
  | cycle =>
    have hone : e.executions .cycle = e.machine.stepping := List.append_nil _
    rw [hone]
    exact streamed_cycle h
  | execute i => exact streamed_execute i h
  | reset =>
    rw [act, reset, random_sound]
    exact hnone
  | operate m =>
    rw [act, random_apply]
    exact hnone

lemma streamed_run (as : List (Action γ)) (h : Streamed key xs e.machine.random) :
    Streamed key (xs ++ collect executions e as) (e.run as).machine.random := by
  have ha : Permits (fun _ _ => True) e as := permits_of_forall fun _ _ => trivial
  exact collect_induction (P := fun xs f => Streamed key xs f.machine.random) (fun _ _ a _ => streamed_act a) ha h

omit [Host σ γ] in
lemma streamed_create (font : Font) (host : σ) (config : Config) (key : ChaCha.Key) :
    Streamed ((config.seed.map Random.keyOfSeed).getD key) []
      (create font host config key : Emulator σ γ).machine.random where
  reached := by
    rw [create]
    cases config.seed <;> rfl
  before _ _ h := nomatch h
  after _ _ h := nomatch h
  sets _ _ h := nomatch h

/-- Random words go to the instructions that take one, in order, and what takes none does not depend on them. -/
theorem random_words_in_order (font : Font) (host : σ) (config : Config) (key : ChaCha.Key) (as : List (Action γ)) :
    let first : Emulator σ γ := create font host config key
    Streamed ((config.seed.map Random.keyOfSeed).getD key) (collect executions first as)
        (first.run as).machine.random ∧
      (Wordless (collect executions first as) → ∀ seed key',
        let other : Emulator σ γ := create font host { config with seed := seed } key'
        collect answers other as = collect answers first as ∧
          other.run as = (first.run as).reseeded other.machine.random) :=
  ⟨streamed_run as (streamed_create font host config key), fun h _ _ => run_reseeded h⟩

/-- Three words taken, one of them for an empty mask and one behind a fault and a reset, and a program that takes
none. -/
theorem random_words_in_order_seeded :
    let first : Emulator Silence Unit := create .standard {} { seed := some 7 } (Vector.replicate 8 0)
    let other : Emulator Silence Unit := create .standard {} { seed := some 8 } (Vector.replicate 8 0)
    let noisy : List (Action Unit) :=
      [.operate (.swapRom [0xC0, 0x00, 0xC1, 0x0F, 0xFF, 0xFF]), .cycle, .cycle, .cycle, .reset,
        .execute (.random 5 0xFF)]
    let quiet : List (Action Unit) := [.frame, .operate (.swapRom [0x60, 0x07, 0xFF, 0xFF]), .send .resume, .frame]
    (first.run noisy).machine.random = ⟨Random.keyOfSeed 7, 3⟩ ∧ Wordless (collect executions first quiet) ∧
      (first.run quiet).machine.reg 0 = 7 ∧ collect answers other quiet = collect answers first quiet ∧
      other.run quiet = (first.run quiet).reseeded ⟨Random.keyOfSeed 8, 0⟩ := by
  intro first other noisy quiet
  obtain ⟨hnoisy, -⟩ := random_words_in_order .standard Silence.mk { seed := some 7 } (Vector.replicate 8 0) noisy
  obtain ⟨-, hquiet⟩ := random_words_in_order .standard Silence.mk { seed := some 7 } (Vector.replicate 8 0) quiet
  have hthree : (collect executions first noisy).countP Execution.takesWord = 3 := by decide +kernel
  have hnone : Wordless (collect executions first quiet) := by
    rw [Wordless]
    decide +kernel
  exact ⟨hnoisy.reached.trans (congrArg (Random.mk _) hthree), hnone, by decide +kernel,
    hquiet hnone (some 8) (Vector.replicate 8 0)⟩

end Emulator

end Chip8
