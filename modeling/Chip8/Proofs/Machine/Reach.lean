import Chip8.Proofs.Machine.Blocks
import Chip8.Proofs.Machine.Execute
import Chip8.Proofs.Screen.Sprite

/-! How far the instructions that use the index reach into memory. All that they read and write is in the block of
addresses from the index on. What of it is past the end of memory is read as zero or dropped, and only a block that
runs over the end of the addresses comes back to those below the index. -/

namespace Chip8

/-- The instructions that use the index, with the number of addresses that each of them uses. -/
inductive Instruction.Reaches : Instruction → Nat → Prop
  | draw {x y height} : height ≤ 16 → Reaches (.draw x y height) height.toNat
  | storeDecimal {x} : Reaches (.storeDecimal x) 3
  | storeRegisters {x} : x < 16 → Reaches (.storeRegisters x) (x.toNat + 1)
  | loadRegisters {x} : x < 16 → Reaches (.loadRegisters x) (x.toNat + 1)

lemma Instruction.Reaches.le {i : Instruction} {n : Nat} (h : i.Reaches n) : n ≤ 16 := by
  cases h with
  | draw hh => exact UInt8.le_iff_toNat_le.1 hh
  | storeDecimal => decide
  | storeRegisters hx | loadRegisters hx => exact UInt8.lt_iff_toNat_lt.1 hx

namespace Machine

variable {m : Machine} {i : Instruction} {n k : Nat} {s t : UInt16 → Prop}

lemma toNat_offset (hk : k < 65536) : (UInt16.ofNat k).toNat = k := UInt16.toNat_ofNat_of_lt' hk

/-- The addresses of memory in a block that begins at the index. -/
def Touches (m : Machine) (n : Nat) (a : UInt16) : Prop :=
  a.toNat < memorySize ∧ ∃ k < n, a = m.index + UInt16.ofNat k

lemma touches_iff {a : UInt16} (hn : n ≤ 16) : m.Touches n a ↔ a.toNat < memorySize ∧ (a - m.index).toNat < n := by
  refine and_congr_right fun _ => ⟨?_, fun h => ⟨_, h, ?_⟩⟩
  · rintro ⟨k, hk, rfl⟩
    rwa [UInt16.add_comm, UInt16.add_sub_cancel, toNat_offset (by omega)]
  · rw [UInt16.ofNat_toNat, UInt16.add_comm, UInt16.sub_add_cancel]

lemma Touches.around {a : UInt16} (hn : n ≤ 16) (h : m.Touches n a) (ha : a < m.index) :
    ∃ k < n, m.index.toNat + k = 65536 + a.toNat := by
  obtain ⟨-, k, hk, rfl⟩ := h
  refine ⟨k, hk, ?_⟩
  have hi := m.index.toNat_lt
  have hl := UInt16.lt_iff_toNat_lt.1 ha
  rw [UInt16.toNat_add, toNat_offset (by omega)] at hl ⊢
  omega

lemma Touches.above {a : UInt16} (hn : n ≤ 16) (hi : m.index.toNat + n ≤ 65536) (h : m.Touches n a) :
    m.index ≤ a := by
  by_contra hl
  obtain ⟨k, hk, hs⟩ := h.around hn (UInt16.not_le.1 hl)
  omega

def withMemory (m : Machine) (μ : Memory) : Machine := { m with memory := μ }

/-- An instruction reads and writes no other addresses than those in `s`: with any memory that is the same there it
does the same, and it leaves what it was given elsewhere. -/
def Within (m : Machine) (i : Instruction) (s : UInt16 → Prop) : Prop :=
  ∀ μ r, (∀ a, s a → μ.read a = m.memory.read a) → m.execute i = .ok r →
    ∃ ν, (m.withMemory μ).execute i = .ok { r with machine := r.machine.withMemory ν } ∧
      (∀ a, s a → ν.read a = r.machine.memory.read a) ∧ ∀ a, ¬ s a → ν.read a = μ.read a

lemma Within.unchanged {r : Effect} {a : UInt16} (h : m.Within i s) (hr : m.execute i = .ok r) (ha : ¬ s a) :
    r.machine.memory.read a = m.memory.read a := by
  obtain ⟨ν, hν, -, ho⟩ := h m.memory r (fun _ _ => rfl) hr
  have he : Except.ok r = .ok { r with machine := r.machine.withMemory ν } := hr.symm.trans hν
  have hm : r.machine.memory = ν := congrArg (·.machine.memory) (Except.ok.inj he)
  rw [hm, ho a ha]

lemma Within.mono (h : m.Within i s) (hst : ∀ a, s a → t a) : m.Within i t := by
  intro μ r hμ hr
  obtain ⟨ν, hν, hs, ho⟩ := h μ r (fun a ha => hμ a (hst a ha)) hr
  refine ⟨ν, hν, fun a ht => ?_, fun a ht => ho a fun ha => ht (hst a ha)⟩
  by_cases ha : s a
  · exact hs a ha
  · -- Between `s` and `t` both runs leave what they were given, and that is the same.
    rw [ho a ha, hμ a ht, h.unchanged hr ha]

lemma block_withMemory {μ : Memory} (h : ∀ a, m.Touches n a → μ.read a = m.memory.read a) :
    (m.withMemory μ).block n = m.block n := by
  rw [block_eq_map, block_eq_map]
  refine List.map_congr_left fun k hk => ?_
  by_cases ha : (m.index + UInt16.ofNat k).toNat < memorySize
  · exact h _ ⟨ha, k, List.mem_range.1 hk, rfl⟩
  · rw [Memory.read_of_size_le _ (Nat.not_lt.1 ha)]
    exact Memory.read_of_size_le _ (Nat.not_lt.1 ha)

lemma within_of_block (next : List UInt8 → Machine)
    (h : ∀ μ, (m.withMemory μ).execute i = quiet ((next ((m.withMemory μ).block n)).withMemory μ)) :
    m.Within i (m.Touches n) := by
  intro μ r hμ hr
  -- With its own memory a machine is itself.
  have hm := (h m.memory).symm.trans hr
  cases hm
  refine ⟨μ, ?_, hμ, fun _ _ => rfl⟩
  rw [h, block_withMemory hμ]
  rfl

lemma within_of_store (next : Machine) {bytes : List UInt8} (hn : bytes.length ≤ 16)
    (h : ∀ μ, (m.withMemory μ).execute i = quiet (next.withMemory (μ.writeMany m.index bytes))) :
    m.Within i (m.Touches bytes.length) := by
  intro μ r hμ hr
  have hm := (h m.memory).symm.trans hr
  cases hm
  refine ⟨_, h μ, fun a ha => ?_, fun a ha => ?_⟩
  · obtain ⟨hs, hl⟩ := (touches_iff hn).1 ha
    show (μ.writeMany m.index bytes).read a = (m.memory.writeMany m.index bytes).read a
    rw [Memory.read_writeMany _ _ _ (by omega), Memory.read_writeMany _ _ _ (by omega), if_pos hs, if_pos hs,
      hμ a ha]
  · rw [touches_iff hn, not_and, Nat.not_lt] at ha
    rw [Memory.read_writeMany _ _ _ (by omega)]
    by_cases hs : a.toNat < memorySize
    · simp [hs, ha hs]
    · simp [hs]

lemma advanceIndex_withMemory (m : Machine) (μ : Memory) (x : UInt8) :
    (m.withMemory μ).advanceIndex x = (m.advanceIndex x).withMemory μ := by
  by_cases hd : m.dialect.memoryAdvancesIndex <;> simp [advanceIndex, withMemory, hd]

lemma within_touches (h : i.Reaches n) : m.Within i (m.Touches n) := by
  cases h with
  | @draw x y _ _ => exact within_of_block (m.drawSprite x y) fun μ => rfl
  | @storeDecimal x =>
    have hl : (decimal (m.reg x)).length ≤ 16 := by simp [decimal]
    exact within_of_store m hl fun μ => rfl
  | @storeRegisters x hx =>
    have hl := m.registers.length_upTo x
    rw [← hl]
    exact within_of_store (m.advanceIndex x) (hl.trans_le (UInt8.lt_iff_toNat_lt.1 hx)) fun μ =>
      congrArg quiet (advanceIndex_withMemory m _ x)
  | @loadRegisters x _ =>
    let next bytes := { m with registers := m.registers.setMany 0 bytes }.advanceIndex x
    exact within_of_block next fun μ => congrArg quiet (advanceIndex_withMemory { m with registers := _ } μ x)

/-- What becomes of the access number `k` of an instruction where it finds no memory. -/
inductive Drops (m n : Machine) (k : Nat) : Instruction → Prop
  | draw {x y height} :
      (∀ px, n.screen.pixel px ((m.reg y).toNat % Screen.height + k) =
        m.screen.pixel px ((m.reg y).toNat % Screen.height + k)) → Drops m n k (.draw x y height)
  | storeDecimal {x} : n.memory = m.memory.writeBut m.index (decimal (m.reg x)) k → Drops m n k (.storeDecimal x)
  | storeRegisters {x} : n.memory = m.memory.writeBut m.index (m.registers.upTo x) k → Drops m n k (.storeRegisters x)
  | loadRegisters {x} : n.reg (UInt8.ofNat k) = 0 → Drops m n k (.loadRegisters x)

/-- What becomes of an instruction that finds no memory at all. -/
inductive Misses (m n : Machine) : Instruction → Prop
  | draw {x y height} : n.screen = m.screen → n.reg Registers.flag = 0 → Misses m n (.draw x y height)
  | storeDecimal {x} : n.memory = m.memory → Misses m n (.storeDecimal x)
  | storeRegisters {x} : n.memory = m.memory → Misses m n (.storeRegisters x)
  | loadRegisters {x} : (∀ y ≤ x, n.reg y = 0) → Misses m n (.loadRegisters x)

lemma reg_loaded {x y : UInt8} (hx : x < 16) (hy : y ≤ x) :
    ({ m with registers := m.registers.setMany 0 (m.block (x.toNat + 1)) }.advanceIndex x).reg y =
      m.memory.read (m.index + UInt16.ofNat y.toNat) := by
  have hx' : x.toNat < 16 := UInt8.lt_iff_toNat_lt.1 hx
  have hy' : y.toNat < x.toNat + 1 := Nat.lt_succ_of_le (UInt8.le_iff_toNat_le.1 hy)
  have hl : (0 : UInt8).toNat + (m.block (x.toNat + 1)).length ≤ 16 := by
    rw [UInt8.toNat_zero, Nat.zero_add, length_block]
    exact hx'
  rw [advanceIndex_eq]
  show (m.registers.setMany 0 (m.block (x.toNat + 1))).get y = _
  rw [m.registers.get_setMany hl (by omega), UInt8.toNat_zero, if_pos (Nat.zero_le _), Nat.sub_zero, block_getD _ hy']

variable {r : Effect}

lemma drops_of_past (h : i.Reaches n) (hr : m.execute i = .ok r) (hk : k < n)
    (hp : memorySize ≤ (m.index + UInt16.ofNat k).toNat) : m.Drops r.machine k i := by
  have hn := h.le
  cases h with
  | draw hh =>
    cases hr
    refine .draw fun px => Screen.pixel_draw_of_empty _ _ ?_
    rw [Nat.add_sub_cancel_left, block_getD _ hk, Memory.read_of_size_le _ hp]
  | storeDecimal =>
    cases hr
    exact .storeDecimal (Memory.writeMany_of_past hk hp)
  | @storeRegisters x hx =>
    cases hr
    refine .storeRegisters ?_
    rw [advanceIndex_eq]
    exact Memory.writeMany_of_past (by simpa using hk) hp
  | @loadRegisters x hx =>
    cases hr
    have hy : (UInt8.ofNat k).toNat = k := UInt8.toNat_ofNat_of_lt' (show k < 256 by omega)
    refine .loadRegisters ?_
    rw [reg_loaded hx (UInt8.le_iff_toNat_le.2 (by omega)), hy, Memory.read_of_size_le _ hp]

lemma past_of_beyond (hi : memorySize ≤ m.index.toNat) (hn : m.index.toNat + n ≤ 65536) (hk : k < n) :
    memorySize ≤ (m.index + UInt16.ofNat k).toNat := by
  rw [UInt16.toNat_add, toNat_offset (by omega), Nat.mod_eq_of_lt (by omega)]
  omega

lemma misses_of_beyond (h : i.Reaches n) (hr : m.execute i = .ok r) (hi : memorySize ≤ m.index.toNat)
    (hn : m.index.toNat + n ≤ 65536) : m.Misses r.machine i := by
  have hm : r.machine.memory = m.memory := Memory.ext_read fun a => (within_touches h).unchanged hr (by
    rintro ⟨ha, k, hk, rfl⟩
    exact absurd ha (Nat.not_lt.2 (past_of_beyond hi hn hk)))
  cases h with
  | @draw x y height hh =>
    cases hr
    have hd : m.screen.draw (m.reg x) (m.reg y) (m.block height.toNat) = (m.screen, false) :=
      m.screen.draw_of_empty fun row => by
        by_cases hk : row < height.toNat
        · rw [block_getD _ hk, Memory.read_of_size_le _ (past_of_beyond hi hn hk)]
        · simp [block_eq_map, hk]
    refine .draw (congrArg (·.1) hd) ?_
    show (m.registers.set Registers.flag (m.screen.draw _ _ _).2.toUInt8).get _ = 0
    rw [hd, Registers.get_set_self]
    rfl
  | storeDecimal => exact .storeDecimal hm
  | storeRegisters => exact .storeRegisters hm
  | loadRegisters hx =>
    cases hr
    refine .loadRegisters fun y hy => ?_
    have hk := Nat.lt_succ_of_le (UInt8.le_iff_toNat_le.1 hy)
    rw [reg_loaded hx hy, Memory.read_of_size_le _ (past_of_beyond hi hn hk)]

/-- How an instruction that uses `n` addresses from the index on keeps to them. -/
structure KeepsTo (m : Machine) (i : Instruction) (n : Nat) (r : Effect) : Prop where
  within : m.Within i (m.Touches n)
  around : ∀ a, m.Touches n a → a < m.index → ∃ k < n, m.index.toNat + k = 65536 + a.toNat
  past : ∀ k < n, memorySize ≤ (m.index + UInt16.ofNat k).toNat → m.Drops r.machine k i
  above : m.index.toNat + n ≤ 65536 → m.Within i (m.index ≤ ·)
  beyond : memorySize ≤ m.index.toNat → m.index.toNat + n ≤ 65536 → m.Misses r.machine i

/-- At the last of all addresses the block goes on at the first of them, where the font is. -/
theorem last_index_reaches_font :
    let m : Machine := { memory := .ofFont .standard, index := 0xFFFF, random := { key := Vector.replicate 8 0 } }
    memorySize ≤ m.index.toNat ∧
      ∀ i ∈ [.draw 0 0 2, .storeDecimal 0, .storeRegisters 1, .loadRegisters 1],
        ∃ n r, i.Reaches n ∧ m.execute i = .ok r ∧ ¬ m.Misses r.machine i := by
  intro m
  refine ⟨by decide, fun i hi => ?_⟩
  simp only [List.mem_cons, List.not_mem_nil, or_false] at hi
  obtain rfl | rfl | rfl | rfl := hi
  · refine ⟨_, _, .draw (by decide), rfl, ?_⟩
    rintro ⟨hs, -⟩
    have hp := congrArg (·.pixel 0 1) hs
    revert hp
    decide +kernel
  · refine ⟨_, _, .storeDecimal, rfl, ?_⟩
    rintro (_ | hm)
    have hp := congrArg (·.read 0) hm
    revert hp
    decide +kernel
  · refine ⟨_, _, .storeRegisters (by decide), rfl, ?_⟩
    rintro (_ | _ | hm)
    have hp := congrArg (·.read 0) hm
    revert hp
    decide +kernel
  · refine ⟨_, _, .loadRegisters (by decide), rfl, ?_⟩
    rintro (_ | _ | _ | hv)
    have hp := hv 1 (by decide)
    revert hp
    decide +kernel

theorem memory_reach (m : Machine) (i : Instruction) (n : Nat) (h : i.Reaches n) :
    ∃ r, m.execute i = .ok r ∧ m.KeepsTo i n r := by
  obtain ⟨r, hr⟩ : ∃ r, m.execute i = .ok r := by
    cases h <;> exact ⟨_, rfl⟩
  exact ⟨r, hr, {
    within := within_touches h
    around := fun _ ht hl => ht.around h.le hl
    past := fun _ hk hp => drops_of_past h hr hk hp
    above := fun hi => (within_touches h).mono fun _ ht => ht.above h.le hi
    beyond := fun hi hn => misses_of_beyond h hr hi hn }⟩

/-- A block of registers that is stored across the end of memory, and one behind it. -/
theorem memory_reach_end :
    let m : Machine := { memory := .ofFont .standard, index := 0xFFE, random := { key := Vector.replicate 8 0 } }
    let i : Instruction := .storeRegisters 3
    i.Reaches 4 ∧
      (∃ r, m.execute i = .ok r ∧ m.KeepsTo i 4 r ∧ m.Drops r.machine 2 i ∧ m.Within i (m.index ≤ ·)) ∧
      ∃ r, { m with index := 0x1000 }.execute i = .ok r ∧ { m with index := 0x1000 }.Misses r.machine i := by
  intro m i
  have h : i.Reaches 4 := .storeRegisters (by decide)
  obtain ⟨r, hr, hc⟩ := memory_reach m i 4 h
  obtain ⟨q, hq, hd⟩ := memory_reach { m with index := 0x1000 } i 4 h
  exact ⟨h, ⟨r, hr, hc, hc.past 2 (by decide) (by decide), hc.above (by decide)⟩,
    q, hq, hd.beyond (by decide) (by decide)⟩

end Machine

end Chip8
