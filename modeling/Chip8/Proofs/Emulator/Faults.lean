import Chip8.Proofs.Emulator.Assembly

/-! Faults are exact and atomic. A cycle fails at a word that is no instruction, at a call when the stack is full and
at a return when it is empty, and what is left of it is a program counter that has moved on. -/

namespace Chip8

namespace Instruction

variable {w : Opcode}

lemma decode_eq_ret_iff : decode w = some .ret ↔ w = 0x00EE := by
  constructor
  · intro h
    exact (encode_decode h).symm
  · rintro rfl
    rfl

lemma decode_eq_call_iff {target : UInt16} : decode w = some (.call target) ↔ w.family = 0x2 ∧ target = w.nnn := by
  constructor
  · intro h
    have ht : target < 4096 := decode_inRange h
    have hw : packAddress 0x2 target = w := encode_decode h
    obtain ⟨hf, hn⟩ := packAddress_fields (show (0x2 : UInt8) < 16 by decide) ht
    rw [hw] at hf hn
    exact ⟨hf, hn.symm⟩
  · rintro ⟨hf, rfl⟩
    simp [decode, hf]

end Instruction

namespace Machine

variable {m : Machine} {i : Instruction} {error : Error}

/-- Why a cycle fails. The address in the error is the one of the instruction itself. -/
inductive Fails (m : Machine) : Error → Prop
  | unknown : Instruction.decode m.opcode = none → Fails m (.unknownOpcode m.opcode m.pc)
  | overflow : m.opcode.family = 0x2 → m.stack.toList.length = 16 → Fails m (.stackOverflow m.pc)
  | underflow : m.opcode = 0x00EE → m.stack.toList = [] → Fails m (.stackUnderflow m.pc)

lemma here_fetched (m : Machine) : m.fetched.here = m.pc := UInt16.add_sub_cancel m.pc 2

lemma execute_ret_eq_error_iff :
    m.execute .ret = .error error ↔ m.stack.depth = 0 ∧ error = .stackUnderflow m.here := by
  rw [← CallStack.pop_eq_error_iff]
  simp only [execute]
  cases m.stack.pop m.here <;> simp [quiet]

lemma execute_call_eq_error_iff {target : UInt16} :
    m.execute (.call target) = .error error ↔ m.stack.depth = 16 ∧ error = .stackOverflow m.here := by
  refine Iff.trans ?_ (CallStack.push_eq_error_iff : m.stack.push m.pc m.here = .error error ↔ _)
  simp only [execute]
  cases m.stack.push m.pc m.here <;> simp [quiet]

lemma cases_of_execute_eq_error (h : m.execute i = .error error) : i = .ret ∨ ∃ target, i = .call target := by
  cases i with
  | ret => exact .inl rfl
  | call target => exact .inr ⟨target, rfl⟩
  | _ => cases h

lemma fails_of_step (h : m.step = .error error) : m.Fails error := by
  simp only [step] at h
  cases hd : Instruction.decode m.opcode with
  | none =>
    simp only [hd, Except.error.injEq] at h
    exact h ▸ .unknown hd
  | some i =>
    have hx : m.fetched.execute i = .error error := by
      cases hr : m.fetched.execute i <;> simp_all
    rcases cases_of_execute_eq_error hx with rfl | ⟨target, rfl⟩
    · obtain ⟨hs, rfl⟩ := execute_ret_eq_error_iff.1 hx
      rw [here_fetched]
      exact .underflow (Instruction.decode_eq_ret_iff.1 hd) (List.length_eq_zero_iff.1 (m.stack.length_toList.trans hs))
    · obtain ⟨hs, rfl⟩ := execute_call_eq_error_iff.1 hx
      rw [here_fetched]
      exact .overflow (Instruction.decode_eq_call_iff.1 hd).1 (m.stack.length_toList.trans hs)

lemma Fails.step (h : m.Fails error) : m.step = .error error := by
  cases h with
  | unknown hd => simp only [Machine.step, hd]
  | overflow hf hs =>
    have hd := Instruction.decode_eq_call_iff.2 ⟨hf, rfl⟩
    have hx : m.fetched.execute (.call m.opcode.nnn) = .error (.stackOverflow m.pc) :=
      execute_call_eq_error_iff.2 ⟨m.stack.length_toList.symm.trans hs, by rw [here_fetched]⟩
    simp only [Machine.step, hd, hx]
  | underflow hw hs =>
    have hd := Instruction.decode_eq_ret_iff.2 hw
    have hx : m.fetched.execute .ret = .error (.stackUnderflow m.pc) :=
      execute_ret_eq_error_iff.2
        ⟨m.stack.length_toList.symm.trans (List.length_eq_zero_iff.2 hs), by rw [here_fetched]⟩
    simp only [Machine.step, hd, hx]

lemma step_eq_error_iff : m.step = .error error ↔ m.Fails error := ⟨fails_of_step, Fails.step⟩

end Machine

namespace Emulator

variable {σ γ : Type} [Host σ γ]

/-- Nothing but the program counter and the halt is changed by a cycle that fails; the host is as it was, so that it
has been told nothing. -/
theorem cycle_fails_iff (e f : Emulator σ γ) (error : Error) :
    e.cycle = (.error error, f) ↔
      e.machine.Fails error ∧
        f = { e with machine := { e.machine with pc := e.machine.pc + 2 }, halt := some (.fault error) } := by
  rw [← Machine.step_eq_error_iff, cycle]
  cases hs : e.machine.step with
  | ok s => simp
  | error error' =>
    simp only [Prod.mk.injEq, Except.error.injEq]
    constructor
    · rintro ⟨rfl, rfl⟩
      exact ⟨rfl, rfl⟩
    · rintro ⟨rfl, rfl⟩
      exact ⟨rfl, rfl⟩

end Emulator

end Chip8
