import Chip8.Machine.Execute
import Mathlib.Tactic.Lemma

/-! Blocks of bytes and blocks of registers, each part of them for itself. The addresses of a block wrap around; a block
is never so long that two of them are the same. -/

namespace Chip8

namespace Memory

lemma readMany_eq_map (m : Memory) (a : UInt16) (n : Nat) :
    m.readMany a n = (List.range n).map fun k => m.read (a + UInt16.ofNat k) := by
  induction n generalizing a with
  | zero => rfl
  | succ n ih =>
    simp [readMany, ih, List.range_succ_eq_map, Function.comp_def, UInt16.ofNat_add, UInt16.add_assoc,
      UInt16.add_comm 1]

lemma toNat_sub_succ {a b : UInt16} (h : b ≠ a) : (b - a).toNat = (b - (a + 1)).toNat + 1 := by
  have hn : b.toNat ≠ a.toNat := fun he => h (UInt16.toNat_inj.1 he)
  have ha := a.toNat_lt
  have hb := b.toNat_lt
  simp only [UInt16.toNat_sub, UInt16.toNat_add, UInt16.toNat_one]
  omega

lemma read_writeMany (m : Memory) (a b : UInt16) {bytes : List UInt8} (h : bytes.length ≤ 65536) :
    (m.writeMany a bytes).read b =
      if b.toNat < memorySize then bytes.getD (b - a).toNat (m.read b) else m.read b := by
  induction bytes generalizing m a with
  | nil => simp [writeMany]
  | cons v bytes ih =>
    rw [List.length_cons] at h
    rw [writeMany, ih _ _ (by omega), read_write]
    by_cases hs : b.toNat < memorySize
    · by_cases hb : b = a
      · subst hb
        have hl : bytes.length ≤ (b - (b + 1)).toNat := by
          simp only [UInt16.toNat_sub, UInt16.toNat_add, UInt16.toNat_one]
          omega
        rw [if_pos hs, if_pos hs, if_pos ⟨rfl, hs⟩, List.getD_eq_getElem?_getD, List.getElem?_eq_none hl,
          UInt16.sub_self]
        rfl
      · simp [hs, toNat_sub_succ hb, Ne.symm hb]
    · simp [hs]

variable (m : Memory) (a : UInt16)

lemma write_of_size_le (b : UInt8) (h : memorySize ≤ a.toNat) : m.write a b = m :=
  ext_read fun c => by
    rw [read_write, if_neg]
    rintro ⟨rfl, hc⟩
    exact absurd hc (Nat.not_lt.2 h)

lemma writeMany_append (bs cs : List UInt8) :
    m.writeMany a (bs ++ cs) = (m.writeMany a bs).writeMany (a + UInt16.ofNat bs.length) cs := by
  induction bs generalizing m a with
  | nil => simp [writeMany]
  | cons b bs ih => simp [writeMany, ih, UInt16.ofNat_add, UInt16.add_assoc, UInt16.add_comm 1]

/-- Writes a block but for its byte number `k`. -/
def writeBut (bytes : List UInt8) (k : Nat) : Memory :=
  (m.writeMany a (bytes.take k)).writeMany (a + UInt16.ofNat (k + 1)) (bytes.drop (k + 1))

variable {m a}

lemma writeMany_of_past {bytes : List UInt8} {k : Nat} (hk : k < bytes.length)
    (h : memorySize ≤ (a + UInt16.ofNat k).toNat) : m.writeMany a bytes = m.writeBut a bytes k := by
  have hs : bytes = bytes.take k ++ bytes[k] :: bytes.drop (k + 1) := by simp
  have hl : (bytes.take k).length = k := by simp [Nat.le_of_lt hk]
  calc m.writeMany a bytes
    _ = ((m.writeMany a (bytes.take k)).write (a + UInt16.ofNat k) bytes[k]).writeMany (a + UInt16.ofNat k + 1)
          (bytes.drop (k + 1)) := by rw [congrArg (m.writeMany a) hs, writeMany_append, hl, writeMany]
    _ = m.writeBut a bytes k := by
      rw [write_of_size_le _ _ _ h, writeBut, UInt16.ofNat_add, UInt16.add_assoc]
      rfl

end Memory

namespace Registers

@[simp] lemma length_upTo (r : Registers) (x : UInt8) : (r.upTo x).length = x.toNat + 1 := by simp [upTo]

lemma get_setMany (r : Registers) {x y : UInt8} {vs : List UInt8} (hx : x.toNat + vs.length ≤ 16)
    (hy : y.toNat < 16) :
    (r.setMany x vs).get y = if x.toNat ≤ y.toNat then vs.getD (y.toNat - x.toNat) (r.get y) else r.get y := by
  induction vs generalizing r x with
  | nil => simp [setMany]
  | cons v vs ih =>
    rw [List.length_cons] at hx
    have hs : (x + 1).toNat = x.toNat + 1 := by
      rw [UInt8.toNat_add, UInt8.toNat_one]
      omega
    rw [setMany, ih _ (by omega), get_set, hs]
    rcases Nat.lt_trichotomy x.toNat y.toNat with hlt | heq | hgt
    · have hn : x.toNat % 16 ≠ y.toNat % 16 := by omega
      have hd : y.toNat - x.toNat = y.toNat - (x.toNat + 1) + 1 := by omega
      simp only [Nat.succ_le_of_lt hlt, Nat.le_of_lt hlt, hn, hd, if_true, if_false, List.getD_cons_succ]
    · rw [heq, if_neg (Nat.not_succ_le_self _), if_pos rfl, if_pos (Nat.le_refl _), Nat.sub_self]
      rfl
    · have hn : x.toNat % 16 ≠ y.toNat % 16 := by omega
      have hl : ¬ x.toNat + 1 ≤ y.toNat := by omega
      simp [hn, hl, Nat.not_le.2 hgt]

end Registers

namespace Machine

variable (m : Machine) (n : Nat)

lemma block_eq_map : m.block n = (List.range n).map fun k => m.memory.read (m.index + UInt16.ofNat k) :=
  m.memory.readMany_eq_map m.index n

@[simp] lemma length_block : (m.block n).length = n := by simp [block_eq_map]

variable {m n}

lemma block_getD {k : Nat} (d : UInt8) (hk : k < n) :
    (m.block n).getD k d = m.memory.read (m.index + UInt16.ofNat k) := by
  simp [block_eq_map, hk]

end Machine

end Chip8
