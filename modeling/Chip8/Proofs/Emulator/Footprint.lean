import Chip8.Proofs.Emulator.Recorder
import Chip8.Proofs.Emulator.Run
import Chip8.Proofs.Machine.Footprint

/-! What a cycle that succeeds can change in an emulator: the parts of its machine that the instruction writes, the
program counter and the count of cycles. The host hears of it only where the sound timer is set to run. -/

namespace Chip8

namespace Machine

def sounds (m : Machine) : Instruction → Bool
  | .setSound x => 0 < m.reg x
  | _ => false

variable {m : Machine} {i : Instruction} {r : Effect}

lemma tone_of_execute (h : m.execute i = .ok r) : r.tone = if m.sounds i then some .on else none := by
  have ht : r.tone = (m.soundAfter i).2 := congrArg Prod.snd (execute_executes h).sound
  rw [ht]
  cases i with
  | setSound x =>
    simp only [soundAfter, SoundTimer.set, sounds]
    by_cases hv : m.reg x = 0
    · simp [hv]
    · simp [hv, UInt8.pos_iff_ne_zero]
  | _ => rfl

end Machine

namespace Emulator

variable {σ γ : Type} [Host σ γ]

/-- What has become of `e` in `f` by a cycle that has executed `i`. -/
structure Footprint (i : Instruction) (e f : Emulator σ γ) : Prop where
  decoded : Instruction.decode e.machine.opcode = some i
  parts : ∀ p : Machine.Part, ¬ p.Same e.machine f.machine → i.Writes e.machine.dialect e.machine.index p
  pc : i.jumps = false → f.machine.pc =
    if e.machine.skips i then e.machine.pc + 4 else if e.machine.waits i then e.machine.pc else e.machine.pc + 2
  cycles : f.machine.cycles = e.machine.cycles + 1
  host : f.host = if e.machine.sounds i then Host.notify e.host (.tone .on) else e.host
  /-- The rest is as it was: the program, the frame loop with its pause, its halt and its mailbox, the snapshot. -/
  rest : f = { e with machine := f.machine, host := f.host }

theorem cycle_footprint (e : Emulator σ γ) (i : Instruction) (h : e.cycle.1 = .ok i) : Footprint i e e.cycle.2 := by
  obtain ⟨r, hd, hr, hn⟩ := cycle_of_ok h
  have hfetch (p : Machine.Part) : p.Same e.machine e.machine.fetched := Machine.same_pc p _
  have hcount (p : Machine.Part) : p.Same r.machine r.machine.counted := by cases p <;> rfl
  rw [sound_eq, Machine.tone_of_execute hr] at hn
  rw [hn]
  constructor
  case decoded => exact hd
  case parts =>
    intro p
    refine Function.mtr fun hp => ?_
    rw [not_not]
    exact ((hfetch p).trans (Machine.execute_same hr hp)).trans (hcount p)
  case pc =>
    intro hj
    have hpc : r.machine.pc = _ := Machine.execute_pc hr hj
    have hfour : e.machine.pc + 2 + 2 = e.machine.pc + 4 := UInt16.add_assoc ..
    have hhere : e.machine.fetched.here = e.machine.pc := UInt16.add_sub_cancel e.machine.pc 2
    rw [hhere] at hpc
    exact hpc.trans (congrArg (ite _ · _) hfour)
  case cycles => exact congrArg (· + 1) (Machine.execute_executes hr).cycles
  case host =>
    have hs : e.machine.fetched.sounds i = e.machine.sounds i := by cases i <;> rfl
    simp only [hs]
    split <;> rfl
  case rest => rfl

/-- A program that sets the sound timer and then stores four registers across the end of memory. -/
theorem cycle_footprint_sounding :
    let first : Emulator (Recorder Silence Unit) Unit :=
      create .standard { host := Silence.mk } {} (Vector.replicate 8 0)
    let e := first.run [.operate (.swapRom [0x63, 0x05, 0xF3, 0x18, 0xAF, 0xFE, 0xF3, 0x55]), .cycle]
    let f := e.run [.cycle, .cycle]
    e.cycle.1 = .ok (.setSound 3) ∧ Footprint (.setSound 3) e e.cycle.2 ∧
      e.cycle.2.host = Host.notify e.host (.tone .on) ∧
      f.cycle.1 = .ok (.storeRegisters 3) ∧ Footprint (.storeRegisters 3) f f.cycle.2 ∧
      f.cycle.2.host = f.host ∧ f.cycle.2.machine.pc = f.machine.pc + 2 := by
  intro first e f
  obtain ⟨hi, hs, hj⟩ : e.cycle.1.toOption = some (.setSound 3) ∧ e.machine.sounds (.setSound 3) = true ∧
      f.cycle.1.toOption = some (.storeRegisters 3) := by decide +kernel
  have he := eq_ok_of_toOption hi
  have hf := eq_ok_of_toOption hj
  have h := cycle_footprint e (.setSound 3) he
  have h' := cycle_footprint f (.storeRegisters 3) hf
  exact ⟨he, h, h.host.trans (if_pos hs), hf, h', h'.host, h'.pc rfl⟩

end Emulator

end Chip8
