import Chip8.Emulator.Basic
/-!
Instructions in an emulator: by cycles of its machine, where a failure halts it, or given directly.
-/

namespace Chip8.Emulator

variable {σ γ : Type} [Host σ γ]

def take (e : Emulator σ γ) (effect : Effect) : Emulator σ γ :=
  { e with machine := effect.machine }.sound effect.tone

/-- One cycle. A failure leaves the machine past the instruction and halts the emulator. -/
def cycle (e : Emulator σ γ) : Except Error Instruction × Emulator σ γ :=
  match e.machine.step with
  | .ok step => (.ok step.instruction, e.take step.toEffect)
  | .error error =>
    (.error error, { e with machine := e.machine.fetched, halt := some (.fault error) })

/-- Runs up to `n` cycles and tells how many succeeded before the first failure. -/
def cycles (n : Nat) (e : Emulator σ γ) : Nat × Option Error × Emulator σ γ :=
  go n 0 e
where
  go : Nat → Nat → Emulator σ γ → Nat × Option Error × Emulator σ γ
  | 0, done, e => (done, none, e)
  | n + 1, done, e =>
    match e.cycle with
    | (.ok _, e) => go n (done + 1) e
    | (.error error, e) => (done, some error, e)

inductive Verdict where
  | done
  | failed (error : Error)
  /-- The machine cannot hold what an instruction asks for. -/
  | refused
  deriving DecidableEq, Repr

/-- Executes an instruction without fetching it. It neither counts as a cycle nor halts the emulator. -/
def execute (e : Emulator σ γ) (i : Instruction) : Verdict × Emulator σ γ :=
  if e.machine.accepts i then
    match e.machine.execute i with
    | .ok effect => (.done, e.take effect)
    | .error error => (.failed error, e)
  else (.refused, e)

/-- Executes instructions up to the first that is not done. -/
def executeAll (e : Emulator σ γ) : List Instruction → Verdict × Emulator σ γ
  | [] => (.done, e)
  | i :: is =>
    match e.execute i with
    | (.done, e) => e.executeAll is
    | stuck => stuck

end Chip8.Emulator
