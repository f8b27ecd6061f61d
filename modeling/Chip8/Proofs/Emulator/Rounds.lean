import Chip8.Proofs.Emulator.Frame
import Chip8.Proofs.Machine.Execute
import Mathlib.Logic.Function.Iterate

/-! Rounds of a batch: the host is told of an instruction and a cycle executes it. What the host hears does not
reach the machine, so rounds that succeed are plain cycles. -/

namespace Chip8

def Event.isDraw {γ : Type} : Event γ → Bool
  | .draw .. => true
  | _ => false

namespace Emulator

variable {σ γ : Type} [Host σ γ]

def round (e : Emulator σ γ) : Emulator σ γ := e.preview.cycle.2

lemma cycle_congr {e f : Emulator σ γ} (h : e.machine = f.machine) :
    e.cycle.1 = f.cycle.1 ∧ e.cycle.2.machine = f.cycle.2.machine := by
  simp only [cycle, h]
  cases f.machine.step with
  | ok step => simp [take, sound_eq]
  | error error => simp

lemma cycle_preview (e : Emulator σ γ) : e.preview.cycle.1 = e.cycle.1 :=
  (cycle_congr (e := e.preview) (f := e) rfl).1

lemma rounds_keep (k : Nat) {e : Emulator σ γ} (hok : ∀ j < k, ∃ i, (round^[j] e).cycle.1 = .ok i) :
    (round^[k] e).halt = e.halt ∧ (round^[k] e).drawCount = e.drawCount := by
  induction k generalizing e with
  | zero => exact ⟨rfl, rfl⟩
  | succ k ih =>
    obtain ⟨i, hi⟩ := hok 0 (Nat.succ_pos k)
    obtain ⟨r, -, -, hn⟩ := cycle_of_ok ((cycle_preview e).trans hi)
    have hround : e.round.halt = e.halt ∧ e.round.drawCount = e.drawCount := by
      rw [round, hn, sound_eq]
      exact ⟨rfl, rfl⟩
    obtain ⟨hh, hd⟩ := ih (e := e.round) (fun j hj => hok (j + 1) (Nat.succ_lt_succ hj))
    exact ⟨hh.trans hround.1, hd.trans hround.2⟩

lemma go_eq (n d : Nat) (e : Emulator σ γ) :
    cycles.go n d e = (d + (cycles n e).1, (cycles n e).2) := by
  induction n generalizing d e with
  | zero => rfl
  | succ n ih =>
    simp only [cycles, cycles.go]
    cases hc : e.cycle with
    | mk result next =>
      cases result with
      | error error => rfl
      | ok i =>
        simp only [ih (d + 1), ih (0 + 1)]
        simp only [Nat.zero_add, Nat.add_assoc]

lemma cycles_succ_of_ok {e : Emulator σ γ} {i : Instruction} (n : Nat) (h : e.cycle.1 = .ok i) :
    cycles (n + 1) e = ((cycles n e.cycle.2).1 + 1, (cycles n e.cycle.2).2) := by
  have hc : e.cycle = (.ok i, e.cycle.2) := Prod.ext h rfl
  rw [cycles, cycles.go, hc]
  simp only [go_eq, Nat.zero_add, Nat.add_comm]

/-- Rounds that succeed are plain cycles of any emulator with the same machine. -/
lemma cycles_of_rounds (k : Nat) {e f : Emulator σ γ} (hm : e.machine = f.machine)
    (hok : ∀ j < k, ∃ i, (round^[j] f).cycle.1 = .ok i) :
    ∃ t, e.cycles k = (k, none, t) ∧ t.machine = (round^[k] f).machine := by
  induction k generalizing e f with
  | zero => exact ⟨e, rfl, hm⟩
  | succ k ih =>
    obtain ⟨i, hi⟩ := hok 0 (Nat.succ_pos k)
    obtain ⟨hr, hn⟩ := cycle_congr (e := e) (f := f) hm
    have hp : f.round.machine = f.cycle.2.machine := (cycle_congr (e := f.preview) (f := f) rfl).2
    obtain ⟨t, ht, hmt⟩ := ih (e := e.cycle.2) (f := f.round) (hn.trans hp.symm)
      (fun j hj => hok (j + 1) (Nat.succ_lt_succ hj))
    refine ⟨t, ?_, hmt⟩
    rw [cycles_succ_of_ok k (hr.trans hi), ht]

lemma cycle_counts {e : Emulator σ γ} {i : Instruction} (h : e.cycle.1 = .ok i) :
    e.cycle.2.machine.cycles = e.machine.cycles + 1 := by
  obtain ⟨r, -, hr, hn⟩ := cycle_of_ok h
  rw [hn, sound_eq]
  exact congrArg (· + 1) (Machine.execute_executes hr).cycles

lemma cycles_machine {n k : Nat} {e t : Emulator σ γ} (h : e.cycles n = (k, none, t)) :
    t.machine.cycles = e.machine.cycles + k := by
  induction n generalizing e k with
  | zero =>
    cases h
    rfl
  | succ n ih =>
    cases hc : e.cycle.1 with
    | error error =>
      have hce : e.cycle = (.error error, e.cycle.2) := Prod.ext hc rfl
      rw [cycles, cycles.go, hce] at h
      cases h
    | ok i =>
      rw [cycles_succ_of_ok n hc, Prod.mk.injEq] at h
      obtain ⟨rfl, hrest⟩ := h
      rw [ih (Prod.ext rfl hrest), cycle_counts hc, Nat.add_assoc, Nat.add_comm 1]

def toneEvents (t : Option Tone) : List (Event γ) := t.toList.map .tone

def roundEvents (e : Emulator σ γ) : List (Event γ) :=
  .decode e.machine.pc e.machine.opcode e.drawCount ::
    match e.machine.step with
    | .ok step => toneEvents step.tone
    | .error _ => []

def roundsEvents (e : Emulator σ γ) : Nat → List (Event γ)
  | 0 => []
  | n + 1 => e.roundEvents ++ e.round.roundsEvents n

lemma sound_host (e : Emulator σ γ) (t : Option Tone) :
    (e.sound t).host = (toneEvents t).foldl Host.notify e.host := by
  cases t <;> rfl

lemma round_host (e : Emulator σ γ) : e.round.host = e.roundEvents.foldl Host.notify e.host := by
  have hs : e.preview.machine.step = e.machine.step := rfl
  simp only [round, cycle, hs, roundEvents]
  cases e.machine.step with
  | ok step => exact sound_host _ step.tone
  | error error => rfl

lemma rounds_host (k : Nat) (e : Emulator σ γ) :
    (round^[k] e).host = (e.roundsEvents k).foldl Host.notify e.host := by
  induction k generalizing e with
  | zero => rfl
  | succ k ih =>
    rw [Function.iterate_succ_apply, ih e.round, round_host, roundsEvents, List.foldl_append]

lemma toneEvents_undrawn (t : Option Tone) : ∀ event ∈ (toneEvents t : List (Event γ)), ¬ event.isDraw := by
  cases t <;> simp [toneEvents, Event.isDraw]

omit [Host σ γ] in
lemma roundEvents_undrawn (e : Emulator σ γ) : ∀ event ∈ e.roundEvents, ¬ event.isDraw := by
  intro event he
  rcases List.mem_cons.1 he with rfl | he
  · simp [Event.isDraw]
  · cases hs : e.machine.step with
    | ok step =>
      rw [hs] at he
      exact toneEvents_undrawn step.tone event he
    | error error =>
      rw [hs] at he
      exact absurd he List.not_mem_nil

end Emulator

end Chip8
