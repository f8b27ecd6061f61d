import Chip8.Proofs.Machine.Clock

/-! The course of a machine: cycle after cycle, up to the first that fails. As long as no instruction looks at the
clock it is the same whatever goes on in the clock meanwhile. -/

namespace Chip8.Machine

namespace Concur

variable {m n p : Machine}

lemma refl (m : Machine) : Concur m m := concur_withClock m m.clock

lemma symm (h : Concur m n) : Concur n m :=
  ⟨h.memory.symm, h.registers.symm, h.index.symm, h.pc.symm, h.stack.symm, h.screen.symm, h.latches.symm,
    h.random.symm, h.dialect.symm⟩

lemma trans (h : Concur m n) (h' : Concur n p) : Concur m p :=
  ⟨h'.memory.trans h.memory, h'.registers.trans h.registers, h'.index.trans h.index, h'.pc.trans h.pc,
    h'.stack.trans h.stack, h'.screen.trans h.screen, h'.latches.trans h.latches, h'.random.trans h.random,
    h'.dialect.trans h.dialect⟩

lemma fetched (h : Concur m n) : Concur m.fetched n.fetched :=
  ⟨h.memory, h.registers, h.index, congrArg (· + 2) h.pc, h.stack, h.screen, h.latches, h.random, h.dialect⟩

end Concur

def ReadsClock (m : Machine) : Prop := ∃ i, Instruction.decode m.opcode = some i ∧ i.readsClock

instance (m : Machine) : Decidable m.ReadsClock :=
  decidable_of_iff ((Instruction.decode m.opcode).any Instruction.readsClock) (Option.any_eq_true ..)

lemma step_of_readsClock {m : Machine} (h : m.ReadsClock) : ∃ s, m.step = .ok s := by
  obtain ⟨i, hd, hi⟩ := h
  rw [step, hd]
  cases i with
  | readDelay x | awaitKey x => exact ⟨_, rfl⟩
  | _ => cases hi

variable {m n : Machine} {s : Step} {error : Error}

lemma Concur.step_eq (h : Concur m n) (hr : ¬ m.ReadsClock) :
    n.step = m.step.map fun s =>
      { s with machine := s.machine.withClock { m.clockAfter n.clock s.instruction with cycles := n.cycles + 1 } } := by
  have hs : (m.withClock n.clock).step = _ := step_withClock fun i hd hi => (hr ⟨i, hd, hi⟩).elim
  rw [← h.eq_withClock] at hs
  exact hs

lemma Concur.step_ok (h : Concur m n) (hr : ¬ m.ReadsClock) (hs : m.step = .ok s) :
    ∃ s', n.step = .ok s' ∧ Concur s.machine s'.machine := by
  have hn := h.step_eq hr
  rw [hs] at hn
  exact ⟨_, hn, concur_withClock ..⟩

lemma Concur.step_error (h : Concur m n) (hs : m.step = .error error) : n.step = .error error := by
  -- An instruction that looks at the clock cannot fail.
  have hr : ¬ m.ReadsClock := fun hc => by
    obtain ⟨s, hok⟩ := step_of_readsClock hc
    rw [hs] at hok
    cases hok
  rw [h.step_eq hr, hs]
  rfl

def steps : Nat → Machine → Except Error Machine
  | 0, m => .ok m
  | k + 1, m =>
    match steps k m with
    | .ok p => p.step.map (·.machine)
    | .error error => .error error

lemma steps_succ {k : Nat} {p : Machine} (h : m.steps k = .ok p) : m.steps (k + 1) = p.step.map (·.machine) := by
  rw [steps, h]

lemma steps_of_le {j k : Nat} (h : m.steps j = .error error) (hjk : j ≤ k) : m.steps k = .error error := by
  induction hjk with
  | refl => exact h
  | step hle ih => rw [steps, ih]

/-- `n` is what `m` becomes by so many cycles as it has executed more, though its clock may stand otherwise. -/
def Reached (m n : Machine) : Prop := ∃ k p, m.steps k = .ok p ∧ n.cycles = m.cycles + k ∧ Concur p n

lemma reached_refl (m : Machine) : Reached m m := ⟨0, m, rfl, rfl, .refl m⟩

namespace Reached

lemma of_concur {n' : Machine} (h : Reached m n) (hn : Concur n n') (hc : n'.cycles = n.cycles) : Reached m n' := by
  obtain ⟨k, p, hk, hp, hpn⟩ := h
  exact ⟨k, p, hk, hc.trans hp, hpn.trans hn⟩

lemma unique {n' : Machine} (h : Reached m n) (h' : Reached m n') (hc : n'.cycles = n.cycles) : Concur n n' := by
  obtain ⟨k, p, hk, hn, hpn⟩ := h
  obtain ⟨k', p', hk', hn', hpn'⟩ := h'
  have hkk : k' = k := by omega
  rw [hkk, hk] at hk'
  cases hk'
  exact hpn.symm.trans hpn'

lemma step (h : Reached m n) (hr : ¬ n.ReadsClock) (hs : n.step = .ok s) : Reached m s.machine := by
  obtain ⟨k, p, hk, hn, hpn⟩ := h
  obtain ⟨s', hp, hss⟩ := hpn.symm.step_ok hr hs
  have hc : s.machine.cycles = n.cycles + 1 := congrArg Clock.cycles (clock_of_step hs)
  refine ⟨k + 1, s'.machine, ?_, by omega, hss.symm⟩
  rw [steps_succ hk, hp]
  rfl

/-- No machine is reached beyond one whose next cycle fails. -/
lemma le_of_error {n' : Machine} (h : Reached m n) (hs : n.step = .error error) (h' : Reached m n') :
    n'.cycles ≤ n.cycles := by
  obtain ⟨k, p, hk, hn, hpn⟩ := h
  obtain ⟨k', p', hk', hn', -⟩ := h'
  have hstuck : m.steps (k + 1) = .error error := by
    rw [steps_succ hk, hpn.symm.step_error hs]
    rfl
  have hle : ¬ k + 1 ≤ k' := fun hle => by
    rw [steps_of_le hstuck hle] at hk'
    cases hk'
  omega

end Reached

end Chip8.Machine
