import Chip8.Proofs.Machine.Execute
import Mathlib.Tactic.ByContra
import Mathlib.Tactic.SplitIfs

/-! How far control can go. Past the end of memory there is nothing to decode, so that the program counter leaves
memory by one jump or one fetch and no further. -/

namespace Chip8

namespace Instruction

lemma x_lt (w : Opcode) : w.x < 16 := by
  rw [UInt8.lt_iff_toNat_lt, Opcode.toNat_x]
  exact Nat.mod_lt _ (by decide)

lemma y_lt (w : Opcode) : w.y < 16 := by
  rw [UInt8.lt_iff_toNat_lt, Opcode.toNat_y]
  exact Nat.mod_lt _ (by decide)

lemma n_lt (w : Opcode) : w.n < 16 := by
  rw [UInt8.lt_iff_toNat_lt, Opcode.toNat_n]
  exact Nat.mod_lt _ (by decide)

lemma nnn_lt (w : Opcode) : w.nnn < 4096 := by
  rw [UInt16.lt_iff_toNat_lt, Opcode.toNat_nnn]
  exact Nat.mod_lt _ (by decide)

lemma decodeArithmetic_inRange {w : Opcode} {i : Instruction} (h : decodeArithmetic w = some i) :
    i.InRange := by
  have hxy := And.intro (x_lt w) (y_lt w)
  simp only [decodeArithmetic] at h
  split at h <;> cases h <;> exact hxy

lemma decodeDevice_inRange {w : Opcode} {i : Instruction} (h : decodeDevice w = some i) : i.InRange := by
  have hx := x_lt w
  simp only [decodeDevice] at h
  split at h <;> cases h <;> exact hx

lemma decode_inRange {w : Opcode} {i : Instruction} (h : decode w = some i) : i.InRange := by
  have hx := x_lt w
  have hxy := And.intro hx (y_lt w)
  have hxyn := And.intro hx (And.intro (y_lt w) (n_lt w))
  have hnnn := nnn_lt w
  simp only [decode] at h
  split at h
  case h_1 =>
    split_ifs at h
    all_goals
      cases h
      trivial
  case h_6 | h_10 =>
    split_ifs at h
    cases h
    exact hxy
  case h_9 => exact decodeArithmetic_inRange h
  case h_14 => cases h; exact hxyn
  case h_15 => split_ifs at h <;> cases h <;> exact hx
  case h_16 => exact decodeDevice_inRange h
  all_goals
    cases h
    first | exact hnnn | exact hx

end Instruction

lemma Memory.opcode_of_size_le (m : Memory) {a : UInt16} (h : memorySize ≤ a.toNat) (hw : a.toNat < 65535) :
    m.opcode a = 0 := by
  have hs : (a + 1).toNat = a.toNat + 1 := by
    rw [UInt16.toNat_add, UInt16.toNat_one]
    omega
  rw [Memory.opcode, m.read_of_size_le h, m.read_of_size_le (a := a + 1) (by omega)]
  rfl

namespace Machine

/-- What holds of the registers of control as long as the machine has not failed. -/
structure Confined (m : Machine) : Prop where
  pc_le : m.pc.toNat ≤ 0x10FE
  stack_le : ∀ a ∈ m.stack.toList, a.toNat ≤ 0x1001

/-- Nothing in a cycle leaves its type: neither the program counter nor what an instruction computes. -/
structure SafeCycle (m : Machine) : Prop where
  fetched : m.fetched.pc.toNat = m.pc.toNat + 2
  accepts : ∀ {i}, Instruction.decode m.opcode = some i → m.fetched.accepts i
  skips : ∀ {i}, Instruction.decode m.opcode = some i → (m.fetched.skipIf true).pc.toNat = m.pc.toNat + 4
  inMemory : ∀ {i}, Instruction.decode m.opcode = some i → m.pc.toNat ≤ 0x0FFF
  target_le : ∀ {base}, Instruction.decode m.opcode = some (.jumpOffset base) →
    base.toNat + (m.fetched.reg 0).toNat ≤ 0x10FE
  height_le : ∀ {x y height}, Instruction.decode m.opcode = some (.draw x y height) → height.toNat ≤ 16

variable {m : Machine} {i : Instruction}

lemma pc_le_of_decode (hp : m.pc.toNat ≤ 0x10FE) (hd : Instruction.decode m.opcode = some i) :
    m.pc.toNat ≤ 0x0FFF := by
  by_contra hc
  have hz : m.opcode = 0 := m.memory.opcode_of_size_le (show 4096 ≤ m.pc.toNat by omega) (by omega)
  rw [hz] at hd
  cases hd

lemma fetched_pc (hp : m.pc.toNat ≤ 0x10FE) : m.fetched.pc.toNat = m.pc.toNat + 2 := by
  rw [fetched, UInt16.toNat_add]
  have h2 : (2 : UInt16).toNat = 2 := rfl
  omega

lemma target_le_of_decode {base : UInt16} (n : Machine)
    (hd : Instruction.decode m.opcode = some (.jumpOffset base)) :
    base.toNat + (n.reg 0).toNat ≤ 0x10FE := by
  have hb : base.toNat < 4096 := Instruction.decode_inRange hd
  have hr := (n.reg 0).toNat_lt
  omega

lemma height_lt_of_decode {x y height : UInt8}
    (hd : Instruction.decode m.opcode = some (.draw x y height)) : height.toNat < 16 :=
  (Instruction.decode_inRange hd).2.2

lemma accepts_of_decode (n : Machine) (hd : Instruction.decode m.opcode = some i) : n.accepts i := by
  cases i with
  | draw x y height =>
    have hh := height_lt_of_decode hd
    exact decide_eq_true (UInt8.le_iff_toNat_le.2 (Nat.le_of_lt hh))
  | jumpOffset base =>
    have ht := target_le_of_decode n hd
    exact decide_eq_true (by omega)
  | _ => rfl

lemma Confined.safeCycle (h : Confined m) : SafeCycle m where
  fetched := fetched_pc h.pc_le
  accepts hd := accepts_of_decode _ hd
  skips hd := by
    have hp := pc_le_of_decode h.pc_le hd
    have hf := fetched_pc h.pc_le
    have h2 : (2 : UInt16).toNat = 2 := rfl
    simp only [skipIf, if_true, UInt16.toNat_add, hf]
    omega
  inMemory hd := pc_le_of_decode h.pc_le hd
  target_le hd := target_le_of_decode _ hd
  height_le hd := Nat.le_of_lt (height_lt_of_decode hd)

lemma Confined.executes {r : Effect} (h : Confined m) (hd : Instruction.decode m.opcode = some i)
    (hr : Executes m.fetched i r) : Confined r.machine := by
  have hp := pc_le_of_decode h.pc_le hd
  have hf := fetched_pc h.pc_le
  have hs : ∀ a ∈ m.fetched.stack.toList, a.toNat ≤ 0x1001 := h.stack_le
  cases hr.flow with
  | ret hpop =>
    have hl := CallStack.toList_of_pop hpop
    rw [hl] at hs
    have htop := hs _ List.mem_cons_self
    exact ⟨by omega, fun a ha => hs a (List.mem_cons_of_mem _ ha)⟩
  | call hpush hpc =>
    have hl := CallStack.toList_of_push hpush
    have ht : r.machine.pc.toNat < 4096 := hpc ▸ Instruction.decode_inRange hd
    refine ⟨by omega, fun a ha => ?_⟩
    rw [hl, List.mem_cons] at ha
    rcases ha with rfl | ha
    · omega
    · exact hs a ha
  | jump hstack hpc =>
    have ht : r.machine.pc.toNat < 4096 := hpc ▸ Instruction.decode_inRange hd
    exact ⟨by omega, hstack ▸ hs⟩
  | jumpOffset hstack hpc =>
    have ht := target_le_of_decode m.fetched hd
    refine ⟨?_, hstack ▸ hs⟩
    rw [hpc, UInt16.toNat_add, UInt8.toNat_toUInt16]
    omega
  | skip hstack hpc =>
    have h2 : (2 : UInt16).toNat = 2 := rfl
    refine ⟨?_, hstack ▸ hs⟩
    rw [hpc, UInt16.toNat_add]
    omega
  | wait hstack hpc =>
    have h2 : (2 : UInt16).toNat = 2 := rfl
    refine ⟨?_, hstack ▸ hs⟩
    rw [hpc, here, UInt16.toNat_sub]
    omega
  | pass hstack hpc => exact ⟨by rw [hpc]; omega, hstack ▸ hs⟩

end Machine

end Chip8
