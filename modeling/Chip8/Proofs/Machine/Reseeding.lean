import Chip8.Proofs.Machine.Execute

/-! The random words of a machine. One instruction takes a word, the next of the stream, and to all others the stream
may be any. -/

namespace Chip8

def Instruction.takesWord : Instruction → Bool
  | random .. => true
  | _ => false

/-- An instruction that has been executed, with the machine before, which is past it already, and the one after. -/
structure Execution where
  instruction : Instruction
  before : Machine
  after : Machine

def Execution.takesWord (x : Execution) : Bool := x.instruction.takesWord

namespace Machine

/-- The execution of an instruction, unless it fails. -/
def executing (m : Machine) (i : Instruction) : List Execution :=
  match m.execute i with
  | .ok r => [⟨i, m, r.machine⟩]
  | .error _ => []

/-- The execution in a cycle, unless it fails. -/
def stepping (m : Machine) : List Execution :=
  match Instruction.decode m.opcode with
  | some i => m.fetched.executing i
  | none => []

def reseeded (m : Machine) (w : Random) : Machine := { m with random := w }

variable {m : Machine} {i : Instruction} {r : Effect}

lemma setLogic_reseeded (m : Machine) (w : Random) (x v : UInt8) :
    (m.reseeded w).setLogic x v = (m.setLogic x v).reseeded w := by
  have hd : (m.reseeded w).dialect = m.dialect := rfl
  rw [setLogic, setLogic, hd]
  cases m.dialect.logicResetsVf <;> rfl

lemma advanceIndex_reseeded (m : Machine) (w : Random) (x : UInt8) :
    (m.reseeded w).advanceIndex x = (m.advanceIndex x).reseeded w := by
  have hd : (m.reseeded w).dialect = m.dialect := rfl
  rw [advanceIndex, advanceIndex, hd]
  cases m.dialect.memoryAdvancesIndex <;> rfl

lemma execute_reseeded (hi : i.takesWord = false) (m : Machine) (w : Random) :
    (m.reseeded w).execute i = (m.execute i).map fun r => { r with machine := r.machine.reseeded w } := by
  cases i with
  | random => cases hi
  | ret =>
    have hp : (m.reseeded w).stack.pop (m.reseeded w).here = m.stack.pop m.here := rfl
    simp only [execute, hp]
    cases m.stack.pop m.here <;> rfl
  | call target =>
    have hp : (m.reseeded w).stack.push (m.reseeded w).pc (m.reseeded w).here =
      m.stack.push m.pc m.here := rfl
    simp only [execute, hp]
    cases m.stack.push m.pc m.here <;> rfl
  | skipEqByte | skipNeByte | skipEq | skipNe | skipPressed | skipReleased =>
    simp only [execute, skipIf_eq]
    rfl
  | awaitKey x =>
    have hk : (m.reseeded w).keypad.lastReleased = m.keypad.lastReleased := rfl
    simp only [execute, awaitKey, hk]
    cases m.keypad.lastReleased <;> rfl
  | bitOr | bitAnd | bitXor =>
    simp only [execute, setLogic_reseeded]
    rfl
  | storeRegisters x =>
    have hm : (m.reseeded w).store ((m.reseeded w).registers.upTo x) =
      (m.store (m.registers.upTo x)).reseeded w := rfl
    simp only [execute, hm, advanceIndex_reseeded]
    rfl
  | loadRegisters x =>
    have hm : { m.reseeded w with
        registers := (m.reseeded w).registers.setMany 0 ((m.reseeded w).block (x.toNat + 1)) } =
      { m with registers := m.registers.setMany 0 (m.block (x.toNat + 1)) }.reseeded w := rfl
    simp only [execute, hm, advanceIndex_reseeded]
    rfl
  | _ => rfl

lemma execute_random (m : Machine) (x mask : UInt8) :
    ∃ n, m.execute (.random x mask) = .ok { machine := n } ∧ n.random = m.random.next.2 ∧
      n.reg x = m.random.next.1.toUInt8 &&& mask :=
  ⟨_, rfl, rfl, Registers.get_set_self ..⟩

lemma random_of_execute (h : m.execute i = .ok r) :
    r.machine.random = if i.takesWord then m.random.next.2 else m.random := by
  cases hi : i.takesWord with
  | true =>
    cases i with
    | random x mask =>
      cases h
      rfl
    | _ => cases hi
  | false =>
    -- Reseeding a machine with what it has changes nothing, and what is put in stays there.
    have hs : m.execute i = _ := execute_reseeded hi m m.random
    rw [h] at hs
    exact congrArg (·.machine.random) (Except.ok.inj hs)

lemma takesWord_of_executing (h : ∀ x ∈ m.executing i, x.takesWord = false) : i.takesWord = false := by
  cases i with
  | random x mask => exact h _ (List.mem_singleton_self _)
  | _ => rfl

lemma takesWord_of_decode (hd : Instruction.decode m.opcode = some i)
    (h : ∀ x ∈ m.stepping, x.takesWord = false) : i.takesWord = false := by
  rw [stepping, hd] at h
  exact takesWord_of_executing h

lemma step_reseeded (h : ∀ x ∈ m.stepping, x.takesWord = false) (w : Random) :
    (m.reseeded w).step = m.step.map fun s => { s with machine := s.machine.reseeded w } := by
  have ho : (m.reseeded w).opcode = m.opcode := rfl
  have hf : (m.reseeded w).fetched = m.fetched.reseeded w := rfl
  rw [step, step, ho, hf]
  cases hd : Instruction.decode m.opcode with
  | none => rfl
  | some i =>
    simp only [execute_reseeded (takesWord_of_decode hd h)]
    cases m.fetched.execute i <;> rfl

end Machine

end Chip8
