import Chip8.Proofs.Emulator.Rounds
import Mathlib.Tactic.SplitIfs

/-! A batch is a number of rounds and a reason to end behind them, which is the first reason that there is. -/

namespace Chip8.Emulator

variable {σ γ : Type} [Host σ γ]

inductive Ending where
  | budget
  | draw
  | abort
  | fault (error : Error)

def drew (e : Emulator σ γ) : Nat → Bool
  | 0 => false
  | n + 1 =>
    match (round^[n] e).cycle.1 with
    | .ok i => i.isDraw
    | .error _ => false

/-- The first reason, if there is one, to end a batch of at most `limit` instructions after `n` of them. -/
def ending (limit : Nat) (e : Emulator σ γ) (n : Nat) : Option Ending :=
  if n = limit then some .budget
  else if e.drew n then some .draw
  else if (round^[n] e).aborts then some .abort
  else
    match (round^[n] e).cycle.1 with
    | .ok _ => none
    | .error error => some (.fault error)

def conclude (e : Emulator σ γ) : Ending → Emulator σ γ
  | .budget | .draw => e
  | .abort => { e.preview with halt := some .aborted }
  | .fault _ => e.round

lemma drew_succ (e : Emulator σ γ) (n : Nat) (h : e.drew 1 = false) : e.drew (n + 1) = e.round.drew n := by
  cases n with
  | zero => exact h
  | succ n => rfl

lemma ending_succ (limit : Nat) (e : Emulator σ γ) (n : Nat) (h : e.drew 1 = false) :
    ending (limit + 1) e (n + 1) = ending limit e.round n := by
  rw [ending, ending, drew_succ e n h, Function.iterate_succ_apply]
  by_cases hn : n = limit <;> simp [hn]

lemma cycle_ok_of_ending {limit : Nat} {e : Emulator σ γ} {n : Nat} (h : ending limit e n = none) :
    ∃ i, (round^[n] e).cycle.1 = .ok i := by
  rw [ending] at h
  cases hc : (round^[n] e).cycle.1 with
  | ok i => exact ⟨i, rfl⟩
  | error error =>
    rw [hc] at h
    split_ifs at h

lemma cycle_error_of_ending {limit : Nat} {e : Emulator σ γ} {n : Nat} {error : Error}
    (h : ending limit e n = some (.fault error)) : (round^[n] e).cycle.1 = .error error := by
  simp only [ending] at h
  cases hc : (round^[n] e).cycle.1 with
  | ok i =>
    rw [hc] at h
    split_ifs at h <;> cases h
  | error error' =>
    rw [hc] at h
    split_ifs at h <;> cases h
    rfl

lemma executeBatch_eq_conclude (n : Nat) (e : Emulator σ γ) :
    ∃ k why, ending n e k = some why ∧ (∀ j < k, ending n e j = none) ∧ k ≤ n ∧
      executeBatch n e = (round^[k] e).conclude why := by
  -- The first round either ends the batch or leaves one with a budget that is one less.
  induction n generalizing e with
  | zero => exact ⟨0, .budget, rfl, fun j hj => absurd hj (Nat.not_lt_zero j), Nat.le_refl 0, rfl⟩
  | succ n ih =>
    have hnone : ∀ j < 0, ending (n + 1) e j = none := fun j hj => absurd hj (Nat.not_lt_zero j)
    rw [executeBatch]
    cases ha : e.aborts with
    | true => exact ⟨0, .abort, by simp [ending, drew, ha], hnone, Nat.zero_le _, rfl⟩
    | false =>
      have hp := cycle_preview e
      cases hc : e.preview.cycle with
      | mk result next =>
        have hround : e.round = next := congrArg Prod.snd hc
        rw [hc] at hp
        cases result with
        | error error =>
          exact ⟨0, .fault error, by simp [ending, drew, ha, ← hp], hnone, Nat.zero_le _, hround.symm⟩
        | ok i =>
          have hfirst : ending (n + 1) e 0 = none := by simp [ending, drew, ha, ← hp]
          have hdrew : e.drew 1 = i.isDraw := by simp [drew, ← hp]
          simp only [Bool.false_eq_true, if_false]
          cases hi : i.isDraw with
          | true =>
            have hj : ∀ j < 1, ending (n + 1) e j = none := by
              intro j hj
              rw [Nat.lt_one_iff.1 hj]
              exact hfirst
            cases n with
            | zero => exact ⟨1, .budget, rfl, hj, Nat.le_refl 1, hround.symm⟩
            | succ n =>
              refine ⟨1, .draw, ?_, hj, Nat.succ_le_succ (Nat.zero_le _), hround.symm⟩
              simp [ending, hdrew, hi]
          | false =>
            obtain ⟨k, why, hk, hj, hle, hb⟩ := ih e.round
            refine ⟨k + 1, why, ?_, ?_, Nat.succ_le_succ hle, ?_⟩
            · rw [ending_succ n e k (hdrew.trans hi), hk]
            · intro j hlt
              cases j with
              | zero => exact hfirst
              | succ j => rw [ending_succ n e j (hdrew.trans hi), hj j (Nat.lt_of_succ_lt_succ hlt)]
            · rw [Function.iterate_succ_apply, ← hb, hround]
              rfl

def endingEvents (e : Emulator σ γ) : Ending → List (Event γ)
  | .budget | .draw => toneEvents e.machine.sound.decrement.2
  | .abort | .fault _ => [.decode e.machine.pc e.machine.opcode e.drawCount]

def batchEvents (e : Emulator σ γ) (k : Nat) (why : Ending) : List (Event γ) :=
  e.roundsEvents k ++ (round^[k] e).endingEvents why

lemma batchEvents_undrawn (e : Emulator σ γ) (k : Nat) (why : Ending) :
    ∀ event ∈ e.batchEvents k why, ¬ event.isDraw := by
  induction k generalizing e with
  | zero =>
    cases why with
    | budget | draw => exact toneEvents_undrawn _
    | abort | fault => simp [batchEvents, roundsEvents, endingEvents, Event.isDraw]
  | succ k ih =>
    intro event he
    rw [batchEvents, roundsEvents, List.append_assoc] at he
    rcases List.mem_append.1 he with he | he
    · exact roundEvents_undrawn e event he
    · exact ih e.round event he

end Chip8.Emulator
