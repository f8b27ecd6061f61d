import Chip8.Machine.Step
import Mathlib.Tactic.Lemma

/-! The parts of a machine that an instruction changes. One case analysis over the instructions says it for all of
them. -/

namespace Chip8.Machine

lemma setLogic_eq (m : Machine) (x v : UInt8) :
    m.setLogic x v = { m with registers := (m.setLogic x v).registers } := by
  rw [setLogic]
  split <;> rfl

lemma skipIf_eq (m : Machine) (c : Bool) :
    m.skipIf c = { m with pc := if c then m.pc + 2 else m.pc } := by
  cases c <;> rfl

lemma advanceIndex_eq (m : Machine) (x : UInt8) :
    m.advanceIndex x = { m with index := (m.advanceIndex x).index } := by
  rw [advanceIndex]
  split <;> rfl

lemma awaitKey_eq (m : Machine) (x : UInt8) :
    m.awaitKey x =
      { m with
        registers := (m.awaitKey x).registers
        pc := if m.keypad.lastReleased.isSome then m.pc else m.here } := by
  rw [awaitKey]
  cases m.keypad.lastReleased <;> rfl

inductive Flow (m n : Machine) : Instruction → Prop
  | ret : m.stack.pop m.here = .ok (n.pc, n.stack) → Flow m n .ret
  | call {target} : m.stack.push m.pc m.here = .ok n.stack → n.pc = target → Flow m n (.call target)
  | jump {target} : n.stack = m.stack → n.pc = target → Flow m n (.jump target)
  | jumpOffset {base} : n.stack = m.stack → n.pc = base + (m.reg 0).toUInt16 →
      Flow m n (.jumpOffset base)
  | skip {i} : n.stack = m.stack → n.pc = m.pc + 2 → Flow m n i
  | wait {x} : n.stack = m.stack → n.pc = m.here → Flow m n (.awaitKey x)
  | pass {i} : n.stack = m.stack → n.pc = m.pc → Flow m n i

lemma flow_skipIf (m : Machine) (c : Bool) (i : Instruction) : Flow m (m.skipIf c) i := by
  cases c with
  | false => exact .pass rfl rfl
  | true => exact .skip rfl rfl

lemma flow_awaitKey (m : Machine) (x : UInt8) : Flow m (m.awaitKey x) (.awaitKey x) := by
  rw [awaitKey]
  cases m.keypad.lastReleased with
  | none => exact .wait rfl rfl
  | some key => exact .pass rfl rfl

def soundAfter (m : Machine) : Instruction → SoundTimer × Option Tone
  | .setSound x => SoundTimer.set (m.reg x)
  | _ => (m.sound, none)

/-- What an instruction does besides computing: how control moves on and how the tone changes. -/
structure Executes (m : Machine) (i : Instruction) (r : Effect) : Prop where
  flow : Flow m r.machine i
  cycles : r.machine.cycles = m.cycles
  sound : (r.machine.sound, r.tone) = m.soundAfter i

lemma execute_executes {m : Machine} {i : Instruction} {r : Effect} (h : m.execute i = .ok r) :
    Executes m i r := by
  cases i with
  | ret =>
    simp only [execute] at h
    split at h
    · rename_i hp
      cases h
      exact ⟨.ret hp, rfl, rfl⟩
    · cases h
  | call target =>
    simp only [execute] at h
    split at h
    · rename_i hp
      cases h
      exact ⟨.call hp rfl, rfl, rfl⟩
    · cases h
  | jump target =>
    cases h
    exact ⟨.jump rfl rfl, rfl, rfl⟩
  | jumpOffset base =>
    cases h
    exact ⟨.jumpOffset rfl rfl, rfl, rfl⟩
  | skipEqByte | skipNeByte | skipEq | skipNe | skipPressed | skipReleased =>
    cases h
    refine ⟨flow_skipIf m _ _, by rw [skipIf_eq], ?_⟩
    rw [skipIf_eq]
    rfl
  | awaitKey x =>
    cases h
    refine ⟨flow_awaitKey m x, by rw [awaitKey_eq], ?_⟩
    rw [awaitKey_eq]
    rfl
  | bitOr | bitAnd | bitXor =>
    cases h
    rw [setLogic_eq]
    exact ⟨.pass rfl rfl, rfl, rfl⟩
  | storeRegisters | loadRegisters =>
    cases h
    rw [advanceIndex_eq]
    exact ⟨.pass rfl rfl, rfl, rfl⟩
  | _ =>
    cases h
    exact ⟨.pass rfl rfl, rfl, rfl⟩

end Chip8.Machine
