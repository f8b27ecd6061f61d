import Chip8.Proofs.Machine.Blocks
import Chip8.Proofs.Machine.Execute
import Mathlib.Data.List.GetD

/-! What an instruction can change. Each instruction has the parts of a machine that it writes, and it leaves all others
as they are; where control goes on behind it is said apart. -/

namespace Chip8

/-- The parts of a machine beside the program counter and the cycle count. -/
inductive Machine.Part where
  | memory (a : UInt16)
  | register (r : Fin 16)
  | index
  | stack
  | screen
  | delay
  | sound
  | random
  | keypad
  | dialect

def Machine.Part.Same (m n : Machine) : Machine.Part → Prop
  | memory a => n.memory.read a = m.memory.read a
  | register r => n.registers.cells.get r = m.registers.cells.get r
  | index => n.index = m.index
  | stack => n.stack = m.stack
  | screen => n.screen = m.screen
  | delay => n.delay = m.delay
  | sound => n.sound = m.sound
  | random => n.random = m.random
  | keypad => n.keypad = m.keypad
  | dialect => n.dialect = m.dialect

lemma Registers.mod_size_lt (x : UInt8) : x.toNat % 16 < 16 := Nat.mod_lt _ (Nat.succ_pos 15)

def Registers.number (x : UInt8) : Fin 16 := ⟨x.toNat % 16, mod_size_lt x⟩

namespace Instruction

/-- The register VX that an instruction sets, unless it loads a block of them. -/
def target? : Instruction → Option UInt8
  | loadByte x _ | addByte x _ | random x _ | readDelay x | awaitKey x => some x
  | copy x _ | bitOr x _ | bitAnd x _ | bitXor x _ | add x _ | sub x _ | shiftRight x _ | subFrom x _
  | shiftLeft x _ => some x
  | _ => none

def setsFlag : Instruction → Bool
  | bitOr .. | bitAnd .. | bitXor .. | add .. | sub .. | shiftRight .. | subFrom .. | shiftLeft .. | draw .. => true
  | _ => false

/-- Whether an instruction goes on elsewhere, wherever that is. -/
def jumps : Instruction → Bool
  | ret | jump _ | call _ | jumpOffset _ => true
  | _ => false

/-- The parts that an instruction may write, in a dialect and where the index is `base` before. No instruction writes
the keypad or the dialect. -/
inductive Writes (d : Dialect) (base : UInt16) : Instruction → Machine.Part → Prop
  | storeDecimal {x : UInt8} {k : Nat} : k ≤ 2 → Writes d base (.storeDecimal x) (.memory (base + UInt16.ofNat k))
  | storeRegisters {x : UInt8} {k : Nat} : k ≤ x.toNat →
      Writes d base (.storeRegisters x) (.memory (base + UInt16.ofNat k))
  | target {i : Instruction} {x : UInt8} : i.target? = some x → Writes d base i (.register (Registers.number x))
  | loadRegisters {x : UInt8} {r : Fin 16} : r.val ≤ x.toNat → Writes d base (.loadRegisters x) (.register r)
  | flag {i : Instruction} : i.setsFlag → Writes d base i (.register 0xF)
  | loadIndex {address : UInt16} : Writes d base (.loadIndex address) .index
  | addIndex {x : UInt8} : Writes d base (.addIndex x) .index
  | pointGlyph {x : UInt8} : Writes d base (.pointGlyph x) .index
  | advanceStored {x : UInt8} : d.memoryAdvancesIndex → Writes d base (.storeRegisters x) .index
  | advanceLoaded {x : UInt8} : d.memoryAdvancesIndex → Writes d base (.loadRegisters x) .index
  | ret : Writes d base .ret .stack
  | call {target : UInt16} : Writes d base (.call target) .stack
  | clear : Writes d base .clear .screen
  | draw {x y height : UInt8} : Writes d base (.draw x y height) .screen
  | setDelay {x : UInt8} : Writes d base (.setDelay x) .delay
  | setSound {x : UInt8} : Writes d base (.setSound x) .sound
  | random {x mask : UInt8} : Writes d base (.random x mask) .random

end Instruction

namespace Machine

variable {m n k : Machine} {p : Part} {x v : UInt8}

lemma Part.same_refl (m : Machine) (p : Part) : p.Same m m := by cases p <;> rfl

lemma Part.Same.trans (h : p.Same m n) (h' : p.Same n k) : p.Same m k := by
  cases p <;> exact Eq.trans h' h

lemma same_pc (p : Part) (a : UInt16) : p.Same m { m with pc := a } := by cases p <;> rfl

lemma same_setReg (hp : p ≠ .register (Registers.number x)) : p.Same m (m.setReg x v) := by
  cases p with
  | register r =>
    have hr : x.toNat % 16 ≠ r.val := fun he => hp (congrArg Part.register (Fin.ext he.symm))
    exact Vector.getElem_set_ne (Registers.mod_size_lt x) r.isLt hr
  | _ => rfl

lemma same_setResult {c : Bool} (hp : p ≠ .register (Registers.number x)) (hf : p ≠ .register 0xF) :
    p.Same m (m.setResult x v c) :=
  (same_setReg hp).trans (same_setReg hf)

lemma same_setLogic (hp : p ≠ .register (Registers.number x)) (hf : p ≠ .register 0xF) :
    p.Same m (m.setLogic x v) := by
  rw [setLogic]
  split
  · exact same_setResult hp hf
  · exact same_setReg hp

lemma same_advanceIndex (m : Machine) (x : UInt8) (hp : m.dialect.memoryAdvancesIndex → p ≠ .index) :
    p.Same m (m.advanceIndex x) := by
  rw [advanceIndex]
  split
  · rename_i hd
    cases p with
    | index => exact absurd rfl (hp hd)
    | _ => rfl
  · exact Part.same_refl m p

lemma same_store {bytes : List UInt8} (hl : bytes.length ≤ 256)
    (hp : ∀ k < bytes.length, p ≠ .memory (m.index + UInt16.ofNat k)) : p.Same m (m.store bytes) := by
  cases p with
  | memory a =>
    have ha : bytes.length ≤ (a - m.index).toNat := by
      refine Nat.le_of_not_lt fun hlt => hp _ hlt ?_
      rw [UInt16.ofNat_toNat, UInt16.add_comm, UInt16.sub_add_cancel]
    show (m.memory.writeMany m.index bytes).read a = m.memory.read a
    rw [Memory.read_writeMany _ _ _ (Nat.le_trans hl (by decide)), List.getD_eq_default _ _ ha, ite_self]
  | _ => rfl

lemma same_setMany (hp : ∀ r : Fin 16, r.val ≤ x.toNat → p ≠ .register r) {bytes : List UInt8}
    (hl : bytes.length = x.toNat + 1) : p.Same m { m with registers := m.registers.setMany 0 bytes } := by
  cases p with
  | register r =>
    have hx : x.toNat < r.val := Nat.lt_of_not_le fun hle => hp r hle rfl
    have hr : (UInt8.ofNat r.val).toNat = r.val := UInt8.toNat_ofNat_of_lt' (show r.val < 256 by omega)
    have hl' : (0 : UInt8).toNat + bytes.length ≤ 16 := by
      rw [UInt8.toNat_zero]
      omega
    have hget := m.registers.get_setMany hl' (y := UInt8.ofNat r.val) (by omega)
    rw [UInt8.toNat_zero, if_pos (Nat.zero_le _), Nat.sub_zero, List.getD_eq_default _ _ (by omega)] at hget
    simp only [Registers.get, hr, Nat.mod_eq_of_lt r.isLt] at hget
    exact hget
  | _ => rfl

variable {i : Instruction} {r : Effect}

lemma execute_same (h : m.execute i = .ok r) (hp : ¬ i.Writes m.dialect m.index p) : p.Same m r.machine := by
  have hne {q : Part} (hq : i.Writes m.dialect m.index q) : p ≠ q := fun he => hp (he ▸ hq)
  cases i with
  | clear =>
    cases h
    cases p with
    | screen => exact absurd rfl (hne .clear)
    | _ => rfl
  | ret =>
    simp only [execute] at h
    split at h <;> cases h
    cases p with
    | stack => exact absurd rfl (hne .ret)
    | _ => rfl
  | call target =>
    simp only [execute] at h
    split at h <;> cases h
    cases p with
    | stack => exact absurd rfl (hne .call)
    | _ => rfl
  | jump | jumpOffset =>
    cases h
    exact same_pc p _
  | skipEqByte | skipNeByte | skipEq | skipNe | skipPressed | skipReleased =>
    cases h
    rw [skipIf_eq]
    exact same_pc p _
  | loadByte | addByte | copy | readDelay =>
    cases h
    exact same_setReg (hne (.target rfl))
  | bitOr | bitAnd | bitXor =>
    cases h
    exact same_setLogic (hne (.target rfl)) (hne (.flag rfl))
  | add | sub | shiftRight | subFrom | shiftLeft =>
    cases h
    exact same_setResult (hne (.target rfl)) (hne (.flag rfl))
  | loadIndex =>
    cases h
    cases p with
    | index => exact absurd rfl (hne .loadIndex)
    | _ => rfl
  | addIndex =>
    cases h
    cases p with
    | index => exact absurd rfl (hne .addIndex)
    | _ => rfl
  | pointGlyph =>
    cases h
    cases p with
    | index => exact absurd rfl (hne .pointGlyph)
    | _ => rfl
  | random =>
    cases h
    cases p with
    | random => exact absurd rfl (hne .random)
    | register r => exact same_setReg (p := .register r) (hne (.target rfl))
    | _ => rfl
  | draw =>
    cases h
    cases p with
    | screen => exact absurd rfl (hne .draw)
    | register r => exact same_setReg (p := .register r) (hne (.flag rfl))
    | _ => rfl
  | awaitKey x =>
    cases h
    rw [awaitKey]
    split
    · exact same_setReg (hne (.target rfl))
    · exact same_pc p _
  | setDelay =>
    cases h
    cases p with
    | delay => exact absurd rfl (hne .setDelay)
    | _ => rfl
  | setSound =>
    cases h
    cases p with
    | sound => exact absurd rfl (hne .setSound)
    | _ => rfl
  | storeDecimal x =>
    cases h
    exact same_store (Nat.le_of_ble_eq_true rfl) fun k hk => hne (.storeDecimal (Nat.le_of_lt_succ hk))
  | storeRegisters x =>
    cases h
    have hl := m.registers.length_upTo x
    have hx := x.toNat_lt
    have hs : p.Same m (m.store (m.registers.upTo x)) :=
      same_store (by omega) fun k hk => hne (.storeRegisters (by omega))
    exact hs.trans (same_advanceIndex _ x fun hd => hne (.advanceStored hd))
  | loadRegisters x =>
    cases h
    have hs : p.Same m { m with registers := m.registers.setMany 0 (m.block (x.toNat + 1)) } :=
      same_setMany (fun r hr => hne (.loadRegisters hr)) (length_block _ _)
    exact hs.trans (same_advanceIndex _ x fun hd => hne (.advanceLoaded hd))

def skips (m : Machine) : Instruction → Bool
  | .skipEqByte x nn => m.reg x == nn
  | .skipNeByte x nn => m.reg x != nn
  | .skipEq x y => m.reg x == m.reg y
  | .skipNe x y => m.reg x != m.reg y
  | .skipPressed x => m.keypad.pressed (m.reg x)
  | .skipReleased x => !m.keypad.pressed (m.reg x)
  | _ => false

/-- Whether an instruction waits for a key and has none. -/
def waits (m : Machine) : Instruction → Bool
  | .awaitKey _ => m.keypad.lastReleased.isNone
  | _ => false

lemma execute_pc (h : m.execute i = .ok r) (hj : i.jumps = false) :
    r.machine.pc = if m.skips i then m.pc + 2 else if m.waits i then m.here else m.pc := by
  cases i with
  | ret | call | jump | jumpOffset => cases hj
  | skipEqByte | skipNeByte | skipEq | skipNe | skipPressed | skipReleased =>
    cases h
    rw [skipIf_eq]
    rfl
  | awaitKey x =>
    cases h
    have hw : m.waits (.awaitKey x) = m.keypad.lastReleased.isNone := rfl
    rw [awaitKey, hw]
    split <;> rename_i hk <;> simp [hk, skips, setReg]
  | bitOr | bitAnd | bitXor =>
    cases h
    rw [setLogic_eq]
    rfl
  | storeRegisters | loadRegisters =>
    cases h
    rw [advanceIndex_eq]
    rfl
  | _ =>
    cases h
    rfl

end Machine

end Chip8
