import Chip8.Proofs.Emulator.RomSwap
import Chip8.Proofs.Machine.Bounds

/-! Instructions and the words that stand for them. An instruction whose operands are in range has one word, each word
has at most one instruction, and a program that is written word by word is fetched as it was written. -/

namespace Chip8

namespace Instruction

lemma family_lt (w : Opcode) : w.family < 16 := by
  have hw := w.toNat_lt
  rw [UInt8.lt_iff_toNat_lt, Opcode.toNat_family]
  exact Nat.div_lt_of_lt_mul hw

section

variable {family x y n : UInt8} {nnn : UInt16}

lemma toNat_packByte (hf : family < 16) (hx : x < 16) (nn : UInt8) :
    (packByte family x nn).toNat = family.toNat * 4096 + x.toNat * 256 + nn.toNat := by
  rw [UInt8.lt_iff_toNat_lt] at hf hx
  have hnn := nn.toNat_lt
  simp only [packByte, UInt16.toNat_add, UInt16.toNat_mul, UInt8.toNat_toUInt16, UInt16.reduceToNat,
    UInt8.reduceToNat] at hf hx ⊢
  omega

lemma toNat_packDigits (hf : family < 16) (hx : x < 16) (hy : y < 16) (hn : n < 16) :
    (packDigits family x y n).toNat = family.toNat * 4096 + x.toNat * 256 + y.toNat * 16 + n.toNat := by
  rw [UInt8.lt_iff_toNat_lt] at hf hx hy hn
  simp only [packDigits, UInt16.toNat_add, UInt16.toNat_mul, UInt8.toNat_toUInt16, UInt16.reduceToNat,
    UInt8.reduceToNat] at hf hx hy hn ⊢
  omega

lemma toNat_packAddress (hf : family < 16) (hn : nnn < 4096) :
    (packAddress family nnn).toNat = family.toNat * 4096 + nnn.toNat := by
  rw [UInt8.lt_iff_toNat_lt] at hf
  rw [UInt16.lt_iff_toNat_lt] at hn
  simp only [packAddress, UInt16.toNat_add, UInt16.toNat_mul, UInt8.toNat_toUInt16, UInt16.reduceToNat,
    UInt8.reduceToNat] at hf hn ⊢
  omega

lemma packByte_fields (hf : family < 16) (hx : x < 16) (nn : UInt8) :
    (packByte family x nn).family = family ∧ (packByte family x nn).x = x ∧ (packByte family x nn).nn = nn := by
  have hw := toNat_packByte hf hx nn
  have hnn := nn.toNat_lt
  simp only [UInt8.lt_iff_toNat_lt, UInt8.reduceToNat] at hf hx
  simp only [← UInt8.toNat_inj, Opcode.toNat_family, Opcode.toNat_x, Opcode.toNat_nn, hw]
  omega

lemma packDigits_fields (hf : family < 16) (hx : x < 16) (hy : y < 16) (hn : n < 16) :
    (packDigits family x y n).family = family ∧ (packDigits family x y n).x = x ∧
      (packDigits family x y n).y = y ∧ (packDigits family x y n).n = n := by
  have hw := toNat_packDigits hf hx hy hn
  simp only [UInt8.lt_iff_toNat_lt, UInt8.reduceToNat] at hf hx hy hn
  simp only [← UInt8.toNat_inj, Opcode.toNat_family, Opcode.toNat_x, Opcode.toNat_y, Opcode.toNat_n, hw]
  omega

lemma packAddress_fields (hf : family < 16) (hn : nnn < 4096) :
    (packAddress family nnn).family = family ∧ (packAddress family nnn).nnn = nnn := by
  have hw := toNat_packAddress hf hn
  simp only [UInt8.lt_iff_toNat_lt, UInt8.reduceToNat] at hf
  simp only [UInt16.lt_iff_toNat_lt, UInt16.reduceToNat] at hn
  simp only [← UInt8.toNat_inj, ← UInt16.toNat_inj, Opcode.toNat_family, Opcode.toNat_nnn, hw]
  omega

end

section

variable {w : Opcode} {family n nn : UInt8}

lemma packByte_of_fields (hf : w.family = family) (hnn : w.nn = nn) : packByte family w.x nn = w := by
  subst hf hnn
  apply UInt16.toNat_inj.1
  rw [toNat_packByte (family_lt w) (x_lt w), Opcode.toNat_family, Opcode.toNat_x, Opcode.toNat_nn]
  omega

lemma packDigits_of_fields (hf : w.family = family) (hn : w.n = n) : packDigits family w.x w.y n = w := by
  subst hf hn
  apply UInt16.toNat_inj.1
  rw [toNat_packDigits (family_lt w) (x_lt w) (y_lt w) (n_lt w), Opcode.toNat_family, Opcode.toNat_x,
    Opcode.toNat_y, Opcode.toNat_n]
  omega

lemma packAddress_of_fields (hf : w.family = family) : packAddress family w.nnn = w := by
  subst hf
  apply UInt16.toNat_inj.1
  rw [toNat_packAddress (family_lt w) (nnn_lt w), Opcode.toNat_family, Opcode.toNat_nnn]
  omega

variable {i : Instruction}

lemma encode_decodeArithmetic (hf : w.family = 0x8) (h : decodeArithmetic w = some i) : i.encode = w := by
  simp only [decodeArithmetic] at h
  split at h
  case h_10 => cases h
  all_goals
    rename_i hn
    cases h
    exact packDigits_of_fields hf (UInt8.toNat_inj.1 hn)

lemma encode_decodeDevice (hf : w.family = 0xF) (h : decodeDevice w = some i) : i.encode = w := by
  simp only [decodeDevice] at h
  split at h
  case h_10 => cases h
  all_goals
    rename_i hnn
    cases h
    exact packByte_of_fields hf (UInt8.toNat_inj.1 hnn)

lemma encode_decode (h : decode w = some i) : i.encode = w := by
  simp only [decode] at h
  split at h
  case h_16 =>
    -- One of sixteen families is left when the first fifteen are excluded.
    have hlt := family_lt w
    have hf : w.family.toNat = 15 := by
      simp only [UInt8.lt_iff_toNat_lt, UInt8.reduceToNat] at hlt
      grind
    exact encode_decodeDevice (UInt8.toNat_inj.1 hf) h
  all_goals rename_i hf
  case h_1 =>
    split_ifs at h with hc hr
    · cases h
      exact hc.symm
    · cases h
      exact hr.symm
  case h_6 | h_10 =>
    split_ifs at h with hn
    cases h
    exact packDigits_of_fields (UInt8.toNat_inj.1 hf) hn
  case h_9 => exact encode_decodeArithmetic (UInt8.toNat_inj.1 hf) h
  case h_14 =>
    cases h
    exact packDigits_of_fields (UInt8.toNat_inj.1 hf) rfl
  case h_15 =>
    split_ifs at h with hp hr
    · cases h
      exact packByte_of_fields (UInt8.toNat_inj.1 hf) hp
    · cases h
      exact packByte_of_fields (UInt8.toNat_inj.1 hf) hr
  case h_2 | h_3 | h_11 | h_12 =>
    cases h
    exact packAddress_of_fields (UInt8.toNat_inj.1 hf)
  all_goals
    cases h
    exact packByte_of_fields (UInt8.toNat_inj.1 hf) rfl

lemma decode_encode (h : i.InRange) : decode i.encode = some i := by
  cases i with
  | clear | ret => rfl
  | jump a | call a | loadIndex a | jumpOffset a =>
    have ha : a < 4096 := h
    simp (disch := first | assumption | decide) only [encode, decode, packAddress_fields, UInt8.reduceToNat]
  | skipEq x y | copy x y | bitOr x y | bitAnd x y | bitXor x y | add x y | sub x y | shiftRight x y | subFrom x y
  | shiftLeft x y | skipNe x y =>
    obtain ⟨hx, hy⟩ : x < 16 ∧ y < 16 := h
    simp (disch := first | assumption | decide) only [encode, decode, decodeArithmetic, packDigits_fields,
      UInt8.reduceToNat, if_true]
  | draw x y height =>
    obtain ⟨hx, hy, hh⟩ : x < 16 ∧ y < 16 ∧ height < 16 := h
    simp (disch := first | assumption | decide) only [encode, decode, packDigits_fields, UInt8.reduceToNat]
  | skipReleased x =>
    have hx : x < 16 := h
    simp (disch := first | assumption | decide) only [encode, decode, packByte_fields, UInt8.reduceToNat, if_true]
    exact if_neg (by decide)
  | skipEqByte x | skipNeByte x | loadByte x | addByte x | random x | skipPressed x | readDelay x | awaitKey x
  | setDelay x | setSound x | addIndex x | pointGlyph x | storeDecimal x | storeRegisters x | loadRegisters x =>
    have hx : x < 16 := h
    simp (disch := first | assumption | decide) only [encode, decode, decodeDevice, packByte_fields,
      UInt8.reduceToNat, if_true]

end

/-- The bytes of a program, each word with its high byte first. -/
def assemble (is : List Instruction) : List UInt8 := is.flatMap fun i => [i.encode.high, i.encode.low]

@[simp] lemma length_assemble (is : List Instruction) : (assemble is).length = 2 * is.length := by
  simp [assemble, List.map_const', Nat.mul_comm]

lemma getElem?_assemble (is : List Instruction) (k : Nat) :
    (assemble is)[2 * k]? = is[k]?.map (·.encode.high) ∧ (assemble is)[2 * k + 1]? = is[k]?.map (·.encode.low) := by
  induction is generalizing k with
  | nil => exact ⟨rfl, rfl⟩
  | cons i is ih =>
    cases k with
    | zero => exact ⟨rfl, rfl⟩
    | succ k => exact ih k

end Instruction

open Instruction

/-- The address of the `k`-th instruction of a program. -/
def romAddress (k : Nat) : UInt16 := UInt16.ofNat (romStart.toNat + 2 * k)

lemma toNat_romAddress {k : Nat} (hk : k < 1792) : (romAddress k).toNat = romStart.toNat + 2 * k := by
  have hs : romStart.toNat = 512 := rfl
  rw [romAddress, UInt16.toNat_ofNat', hs]
  omega

lemma Memory.opcode_loadRom_assemble (m : Memory) {is : List Instruction} (hl : is.length ≤ 1792) {k : Nat}
    (hk : k < is.length) : (m.loadRom (assemble is)).opcode (romAddress k) = is[k].encode := by
  have hs : romStart.toNat = 512 := rfl
  have hz : memorySize = 4096 := rfl
  have ha := toNat_romAddress (Nat.lt_of_lt_of_le hk hl)
  have hb : (romAddress k + 1).toNat = romStart.toNat + (2 * k + 1) := by
    rw [UInt16.toNat_add, ha, UInt16.toNat_one]
    omega
  obtain ⟨hhigh, hlow⟩ := getElem?_assemble is k
  rw [List.getElem?_eq_getElem hk] at hhigh hlow
  rw [Memory.opcode, read_loadRom, read_loadRom, ha, hb, if_neg (by omega), if_neg (by omega),
    Nat.add_sub_cancel_left, Nat.add_sub_cancel_left, hhigh, hlow]
  exact Opcode.ofBytes_high_low _

namespace Emulator

variable {σ γ : Type} [Host σ γ]

theorem assembled_program_decodes (e : Emulator σ γ) :
    (∀ is : List Instruction, is.length ≤ 1792 → (∀ i ∈ is, i.InRange) →
      ∃ f, e.loadRom (assemble is) = .ok f ∧ f.machine.memory = e.machine.memory.loadRom (assemble is) ∧
        ∀ k (hk : k < is.length), decode (f.machine.memory.opcode (romAddress k)) = some is[k]) ∧
      (∀ w i, decode w = some i → i.InRange ∧ i.encode = w) ∧
      ∀ w, decode w = none → ∀ i : Instruction, i.InRange → i.encode ≠ w := by
  refine ⟨fun is hl hi => ?_, fun w i h => ⟨decode_inRange h, encode_decode h⟩, ?_⟩
  · have hr : (assemble is).length ≤ maxRomSize := by
      rw [length_assemble, show maxRomSize = 2 * 1792 from rfl]
      omega
    have hm : (e.renew (assemble is)).machine.memory = e.machine.memory.loadRom (assemble is) := by
      rw [renew, reset, sound_eq]
      rfl
    refine ⟨e.renew (assemble is), e.loadRom_of_le hr, hm, fun k hk => ?_⟩
    rw [hm, Memory.opcode_loadRom_assemble _ hl hk]
    exact decode_encode (hi _ (List.getElem_mem hk))
  · rintro _ h i hi rfl
    rw [decode_encode hi] at h
    cases h

/-- A program of a load, a draw and a jump, a word that decodes and one that does not. -/
theorem assembled_program_decodes_drawing :
    let e := alone [0xFF, 0xFF]
    let is : List Instruction := [.loadByte 1 0x35, .draw 0 1 5, .jump 0x202]
    is.length ≤ 1792 ∧ (∀ i ∈ is, i.InRange) ∧
      (∃ f, e.loadRom [0x61, 0x35, 0xD0, 0x15, 0x12, 0x02] = .ok f ∧
        f.machine.memory = e.machine.memory.loadRom [0x61, 0x35, 0xD0, 0x15, 0x12, 0x02] ∧
        decode (f.machine.memory.opcode 0x202) = some (.draw 0 1 5)) ∧
      decode 0xE2A1 = some (.skipReleased 2) ∧ (skipReleased 2).InRange ∧ (skipReleased 2).encode = 0xE2A1 ∧
      decode 0x5121 = none ∧ (skipEq 1 2).InRange ∧ (skipEq 1 2).encode ≠ 0x5121 := by
  intro e is
  have hi : ∀ i ∈ is, i.InRange := by simp [is, InRange]
  obtain ⟨hload, hword, hnone⟩ := assembled_program_decodes e
  obtain ⟨f, hf, hm, hd⟩ := hload is (by decide) hi
  have hx : decode 0xE2A1 = some (.skipReleased 2) := rfl
  have hn : decode 0x5121 = none := rfl
  have hr : (skipEq 1 2).InRange := by simp [InRange]
  obtain ⟨hrange, hencode⟩ := hword _ _ hx
  exact ⟨by decide, hi, ⟨f, hf, hm, hd 1 (by decide)⟩, hx, hrange, hencode, hn, hr, hnone _ hn _ hr⟩

end Emulator

end Chip8
