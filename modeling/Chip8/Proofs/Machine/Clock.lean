import Chip8.Proofs.Machine.Execute

/-! What goes on in a machine beside its program: the count of its cycles, the two timers and the key released last.
Two instructions look at it, and to all others it may be anything. -/

namespace Chip8

structure Clock where
  cycles : Nat
  delay : DelayTimer
  sound : SoundTimer
  lastReleased : Option UInt8

def Instruction.readsClock : Instruction → Bool
  | readDelay _ | awaitKey _ => true
  | _ => false

namespace Machine

def clock (m : Machine) : Clock := ⟨m.cycles, m.delay, m.sound, m.keypad.lastReleased⟩

def withClock (m : Machine) (t : Clock) : Machine :=
  { m with
    cycles := t.cycles
    delay := t.delay
    sound := t.sound
    keypad := { m.keypad with lastReleased := t.lastReleased } }

lemma withClock_clock (m : Machine) : m.withClock m.clock = m := rfl

/-- What an instruction that is executed beside a clock makes of it. -/
def clockAfter (m : Machine) (t : Clock) : Instruction → Clock
  | .setDelay x => { t with delay := ⟨m.reg x⟩ }
  | .setSound x => { t with sound := ⟨m.reg x⟩ }
  | _ => t

lemma setLogic_withClock (m : Machine) (t : Clock) (x v : UInt8) :
    (m.withClock t).setLogic x v = (m.setLogic x v).withClock t := by
  have hd : (m.withClock t).dialect = m.dialect := rfl
  rw [setLogic, setLogic, hd]
  cases m.dialect.logicResetsVf <;> rfl

lemma advanceIndex_withClock (m : Machine) (t : Clock) (x : UInt8) :
    (m.withClock t).advanceIndex x = (m.advanceIndex x).withClock t := by
  have hd : (m.withClock t).dialect = m.dialect := rfl
  rw [advanceIndex, advanceIndex, hd]
  cases m.dialect.memoryAdvancesIndex <;> rfl

variable {m : Machine} {t : Clock} {i : Instruction}

lemma execute_withClock
    (h : i.readsClock → t.delay = m.delay ∧ t.lastReleased = m.keypad.lastReleased) :
    (m.withClock t).execute i =
      (m.execute i).map fun r => { r with machine := r.machine.withClock (m.clockAfter t i) } := by
  cases i with
  | ret =>
    have hp : (m.withClock t).stack.pop (m.withClock t).here = m.stack.pop m.here := rfl
    simp only [execute, hp]
    cases m.stack.pop m.here <;> rfl
  | call target =>
    have hp : (m.withClock t).stack.push (m.withClock t).pc (m.withClock t).here =
      m.stack.push m.pc m.here := rfl
    simp only [execute, hp]
    cases m.stack.push m.pc m.here <;> rfl
  | readDelay x =>
    have hd : (m.withClock t).delay = m.delay := (h rfl).1
    simp only [execute, hd]
    rfl
  | awaitKey x =>
    have hk : (m.withClock t).keypad.lastReleased = m.keypad.lastReleased := (h rfl).2
    simp only [execute, awaitKey, hk]
    cases m.keypad.lastReleased <;> rfl
  | skipEqByte | skipNeByte | skipEq | skipNe | skipPressed | skipReleased =>
    simp only [execute, skipIf_eq]
    rfl
  | bitOr | bitAnd | bitXor =>
    simp only [execute, setLogic_withClock]
    rfl
  | storeRegisters x =>
    have hm : (m.withClock t).store ((m.withClock t).registers.upTo x) =
      (m.store (m.registers.upTo x)).withClock t := rfl
    simp only [execute, hm, advanceIndex_withClock]
    rfl
  | loadRegisters x =>
    have hm : { m.withClock t with
        registers := (m.withClock t).registers.setMany 0 ((m.withClock t).block (x.toNat + 1)) } =
      { m with registers := m.registers.setMany 0 (m.block (x.toNat + 1)) }.withClock t := rfl
    simp only [execute, hm, advanceIndex_withClock]
    rfl
  | _ => rfl

lemma step_withClock
    (h : ∀ i, Instruction.decode m.opcode = some i → i.readsClock →
      t.delay = m.delay ∧ t.lastReleased = m.keypad.lastReleased) :
    (m.withClock t).step = m.step.map fun s =>
      { s with machine := s.machine.withClock { m.clockAfter t s.instruction with cycles := t.cycles + 1 } } := by
  have ho : (m.withClock t).opcode = m.opcode := rfl
  simp only [step, ho]
  cases hd : Instruction.decode m.opcode with
  | none => rfl
  | some i =>
    have hx : (m.withClock t).fetched.execute i =
        (m.fetched.execute i).map fun r => { r with machine := r.machine.withClock (m.fetched.clockAfter t i) } :=
      execute_withClock (m := m.fetched) (h i hd)
    simp only [hx]
    cases m.fetched.execute i with
    | error error => rfl
    | ok r => cases i <;> rfl

/-- A cycle beside its own clock is an ordinary one. -/
lemma clock_of_step {s : Step} (h : m.step = .ok s) :
    s.machine.clock = { m.clockAfter m.clock s.instruction with cycles := m.cycles + 1 } := by
  have hs : (m.withClock m.clock).step = _ := step_withClock fun _ _ _ => ⟨rfl, rfl⟩
  rw [withClock_clock, h] at hs
  have hm := congrArg (Except.map fun s => s.machine.clock) hs
  exact Except.ok.inj hm

def recount (m : Machine) (c : Nat) : Machine := { m with cycles := c }

lemma step_recount (m : Machine) (c : Nat) :
    (m.recount c).step = m.step.map fun s => { s with machine := s.machine.recount (c + 1) } := by
  have hs : (m.recount c).step = _ := step_withClock (t := { m.clock with cycles := c }) fun _ _ _ => ⟨rfl, rfl⟩
  rw [hs]
  cases hm : m.step with
  | error error => rfl
  | ok s =>
    have hc := clock_of_step hm
    have hw : s.machine.recount (c + 1) = s.machine.withClock { s.machine.clock with cycles := c + 1 } := rfl
    simp only [Except.map, hw, hc]
    cases s.instruction <;> rfl

/-- Machines that differ in nothing but their clocks. -/
structure Concur (m n : Machine) : Prop where
  memory : n.memory = m.memory
  registers : n.registers = m.registers
  index : n.index = m.index
  pc : n.pc = m.pc
  stack : n.stack = m.stack
  screen : n.screen = m.screen
  latches : n.keypad.latches = m.keypad.latches
  random : n.random = m.random
  dialect : n.dialect = m.dialect

lemma concur_withClock (m : Machine) (t : Clock) : Concur m (m.withClock t) :=
  ⟨rfl, rfl, rfl, rfl, rfl, rfl, rfl, rfl, rfl⟩

lemma Concur.eq_withClock {n : Machine} (h : Concur m n) : n = m.withClock n.clock := by
  obtain ⟨memory, registers, index, pc, stack, screen, ⟨latches, released⟩, delay, sound, cycles, random, dialect⟩ := n
  obtain ⟨rfl, rfl, rfl, rfl, rfl, rfl, hl, rfl, rfl⟩ := h
  cases hl
  rfl

end Machine

end Chip8
