import Chip8.Proofs.Machine.Reach
import Mathlib.Data.List.GetD

/-! Storing at the index and loading from there again. A block of registers comes back as far as its addresses are
memory, also where they run over the end of memory or wrap around, and a number comes back as its decimal digits. -/

namespace Chip8

namespace Machine

def indexAfter (m : Machine) (x : UInt8) : UInt16 :=
  if m.dialect.memoryAdvancesIndex then m.index + x.toUInt16 + 1 else m.index

/-- What storing the registers up to VX makes of `m`. -/
structure Stores (m : Machine) (x : UInt8) (n : Machine) : Prop where
  outside : ∀ a, ¬ m.Touches (x.toNat + 1) a → n.memory.read a = m.memory.read a
  registers : n.registers = m.registers
  index : n.index = m.indexAfter x

/-- What loading the registers up to VX with the values of `v` makes of `q`. A value without memory is lost. -/
structure Loads (q : Machine) (x : UInt8) (v : UInt8 → UInt8) (k : Machine) : Prop where
  loaded : ∀ y ≤ x, k.reg y = if (q.index + y.toUInt16).toNat < memorySize then v y else 0
  above : ∀ y < 16, x < y → k.reg y = q.reg y
  memory : k.memory = q.memory
  index : k.index = q.indexAfter x

structure Digits (k : Machine) (n : Nat) : Prop where
  digit : ∀ y ≤ 2, k.reg y ≤ 9
  sum : 100 * (k.reg 0).toNat + 10 * (k.reg 1).toNat + (k.reg 2).toNat = n

/-- What is stored at the index of `m` by means of VX comes back, whatever becomes of all but the memory in between. -/
structure RoundTrips (m : Machine) (x : UInt8) : Prop where
  block : ∃ n, m.execute (.storeRegisters x) = .ok { machine := n } ∧ m.Stores x n ∧
    ∀ q : Machine, q.memory = n.memory → q.index = m.index →
      ∃ k, q.execute (.loadRegisters x) = .ok { machine := k } ∧ q.Loads x m.reg k
  decimal : ∃ n, m.execute (.storeDecimal x) = .ok { machine := n } ∧
    ∀ q : Machine, q.memory = n.memory → q.index = m.index →
      ∃ k, q.execute (.loadRegisters 2) = .ok { machine := k } ∧
        ((∀ j < 3, (m.index + UInt16.ofNat j).toNat < memorySize) → k.Digits (m.reg x).toNat)

variable {m q : Machine} {x : UInt8} {bytes : List UInt8}

lemma read_stored {j : Nat} (hl : bytes.length ≤ 16) (hj : j < bytes.length) :
    (m.memory.writeMany m.index bytes).read (m.index + UInt16.ofNat j) =
      if (m.index + UInt16.ofNat j).toNat < memorySize then bytes.getD j 0 else 0 := by
  have ho : (m.index + UInt16.ofNat j - m.index).toNat = j := by
    rw [UInt16.add_comm, UInt16.add_sub_cancel, toNat_offset (by omega)]
  rw [Memory.read_writeMany _ _ _ (by omega), ho]
  split
  · simp [hj]
  · exact Memory.read_of_size_le _ (by omega)

lemma index_advanceIndex (m : Machine) (x : UInt8) : (m.advanceIndex x).index = m.indexAfter x := by
  rw [advanceIndex, indexAfter, UInt16.add_assoc]
  split <;> rfl

lemma loads_stored (hx : x < 16) (hl : bytes.length = x.toNat + 1)
    (hm : q.memory = m.memory.writeMany m.index bytes) (hi : q.index = m.index) :
    ∃ k, q.execute (.loadRegisters x) = .ok { machine := k } ∧ q.Loads x (fun y => bytes.getD y.toNat 0) k := by
  have hx' : x.toNat < 16 := UInt8.lt_iff_toNat_lt.1 hx
  have hn := q.length_block (x.toNat + 1)
  refine ⟨_, rfl, fun y hy => ?_, fun y hy hxy => ?_, ?_, index_advanceIndex _ x⟩
  · have hy' := UInt8.le_iff_toNat_le.1 hy
    rw [reg_loaded hx hy, hm, hi, read_stored (by omega) (by omega), UInt16.ofNat_uInt8ToNat]
  · have hxy' := UInt8.lt_iff_toNat_lt.1 hxy
    rw [advanceIndex_eq]
    show (q.registers.setMany 0 (q.block (x.toNat + 1))).get y = q.registers.get y
    rw [Registers.get_setMany _ (by rw [hn, UInt8.toNat_zero]; omega) (UInt8.lt_iff_toNat_lt.1 hy),
      List.getD_eq_default _ _ (by rw [hn, UInt8.toNat_zero]; omega), ite_self]
  · rw [advanceIndex_eq]

lemma Loads.congr {v w : UInt8 → UInt8} {k : Machine} (h : q.Loads x v k) (hv : ∀ y ≤ x, v y = w y) : q.Loads x w k :=
  { h with loaded := fun y hy => by rw [h.loaded y hy, hv y hy] }

lemma stores_registers (hx : x < 16) :
    ∃ n, m.execute (.storeRegisters x) = .ok { machine := n } ∧ m.Stores x n ∧
      n.memory = m.memory.writeMany m.index (m.registers.upTo x) := by
  refine ⟨_, rfl, ⟨fun a ha => (within_touches (.storeRegisters hx)).unchanged rfl ha, ?_, index_advanceIndex _ x⟩, ?_⟩
  · rw [advanceIndex_eq]
    rfl
  · rw [advanceIndex_eq]
    rfl

lemma getD_upTo (r : Registers) {y : UInt8} (h : y ≤ x) : (r.upTo x).getD y.toNat 0 = r.get y := by
  have hy : y.toNat < x.toNat + 1 := Nat.lt_succ_of_le (UInt8.le_iff_toNat_le.1 h)
  simp [Registers.upTo, hy]

lemma digits_decimal {k : Machine} {v : UInt8} (h : ∀ y ≤ 2, k.reg y = (decimal v).getD y.toNat 0) :
    k.Digits v.toNat := by
  have hv := v.toNat_lt
  have h0 : (k.reg 0).toNat = v.toNat / 100 := by
    rw [h 0 (by decide)]
    exact UInt8.toNat_div v 100
  have h1 : (k.reg 1).toNat = v.toNat / 10 % 10 := by
    rw [h 1 (by decide)]
    exact (UInt8.toNat_mod (v / 10) 10).trans (congrArg (· % 10) (UInt8.toNat_div v 10))
  have h2 : (k.reg 2).toNat = v.toNat % 10 := by
    rw [h 2 (by decide)]
    exact UInt8.toNat_mod v 10
  refine ⟨fun y hy => UInt8.le_iff_toNat_le.2 ?_, by omega⟩
  obtain rfl | rfl | rfl : y = 0 ∨ y = 1 ∨ y = 2 := by
    have hy := UInt8.le_iff_toNat_le.1 hy
    simp only [← UInt8.toNat_inj, UInt8.reduceToNat] at hy ⊢
    omega
  all_goals
    simp only [UInt8.reduceToNat]
    omega

theorem store_roundTrips (m : Machine) (x : UInt8) (hx : x < 16) : m.RoundTrips x where
  block := by
    obtain ⟨n, hn, hs, hm⟩ := stores_registers (m := m) hx
    refine ⟨n, hn, hs, fun q hq hi => ?_⟩
    obtain ⟨k, hk, hld⟩ := loads_stored hx (m.registers.length_upTo x) (hq.trans hm) hi
    exact ⟨k, hk, hld.congr fun y hy => getD_upTo m.registers hy⟩
  decimal := by
    refine ⟨_, rfl, fun q hq hi => ?_⟩
    have hl : (decimal (m.reg x)).length = (2 : UInt8).toNat + 1 := rfl
    obtain ⟨k, hk, hld⟩ := loads_stored (by decide) hl hq hi
    refine ⟨k, hk, fun hmem => digits_decimal fun y hy => ?_⟩
    have hy' : y.toNat < 3 := Nat.lt_succ_of_le (UInt8.le_iff_toNat_le.1 hy)
    rw [hld.loaded y hy, if_pos]
    rw [hi, ← UInt16.ofNat_uInt8ToNat]
    exact hmem _ hy'

/-- Four registers across the end of memory, of which two come back, and a number of three digits. -/
theorem store_roundTrips_end :
    let m : Machine :=
      { memory := .ofFont .standard
        registers := ({} : Registers).setMany 0 [0x11, 0x22, 0x33, 0xFE]
        index := 0xFFE
        random := { key := Vector.replicate 8 0 } }
    let cleared (n : Machine) : Machine := { n with registers := {}, index := m.index }
    let decimals : Machine := { m with index := 0x300 }
    (3 : UInt8) < 16 ∧
      (∃ n k, m.execute (.storeRegisters 3) = .ok { machine := n } ∧
        (cleared n).execute (.loadRegisters 3) = .ok { machine := k } ∧
        [0, 1, 2, 3].map k.reg = [0x11, 0x22, 0, 0]) ∧
      ∃ n k, decimals.execute (.storeDecimal 3) = .ok { machine := n } ∧
        { n with index := 0x300 }.execute (.loadRegisters 2) = .ok { machine := k } ∧ k.Digits 254 := by
  intro m cleared decimals
  have hx : (3 : UInt8) < 16 := by decide
  obtain ⟨n, hn, -, hload⟩ := (store_roundTrips m 3 hx).block
  obtain ⟨k, hk, hr⟩ := hload (cleared n) rfl rfl
  have hv : ∀ y ≤ 3, k.reg y = if (m.index + y.toUInt16).toNat < memorySize then m.reg y else 0 := hr.loaded
  obtain ⟨d, hd, hdigits⟩ := (store_roundTrips decimals 3 hx).decimal
  obtain ⟨l, hl, hsum⟩ := hdigits { d with index := 0x300 } rfl rfl
  refine ⟨hx, ⟨n, k, hn, hk, ?_⟩, d, l, hd, hl, hsum (by decide)⟩
  have hle : ∀ y ∈ ([0, 1, 2, 3] : List UInt8), y ≤ 3 := by simp
  rw [List.map_congr_left fun y hy => hv y (hle y hy)]
  decide

end Machine

end Chip8
