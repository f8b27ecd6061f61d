import Chip8.Font
import Chip8.Opcode
/-!
Byte-addressed memory. Every address past the end reads zero and ignores writes; single accesses wrap around
the 16-bit address space, while a block copied by the host is cut off at the end of memory.
-/

namespace Chip8

def memorySize : Nat := 4096

def romStart : UInt16 := 0x200

def maxRomSize : Nat := memorySize - romStart.toNat

structure Memory where
  bytes : Vector UInt8 memorySize
  deriving DecidableEq

namespace Memory

/-- Overwrites a vector from an index on. What passes the end is dropped. -/
def overwrite {n : Nat} (v : Vector UInt8 n) (i : Nat) : List UInt8 → Vector UInt8 n
  | [] => v
  | b :: bs => overwrite (v.setIfInBounds i b) (i + 1) bs

/-- Zeros behind a font. -/
def ofFont (font : Font) : Memory :=
  ⟨overwrite (Vector.replicate memorySize 0) 0 font.toList⟩

def read (m : Memory) (a : UInt16) : UInt8 :=
  m.bytes[a.toNat]?.getD 0

def write (m : Memory) (a : UInt16) (b : UInt8) : Memory :=
  ⟨m.bytes.setIfInBounds a.toNat b⟩

/-- The opcode at an address. The address of its second byte wraps around. -/
def opcode (m : Memory) (a : UInt16) : Opcode :=
  .ofBytes (m.read a) (m.read (a + 1))

def readMany (m : Memory) (a : UInt16) : Nat → List UInt8
  | 0 => []
  | n + 1 => m.read a :: m.readMany (a + 1) n

def writeMany (m : Memory) (a : UInt16) : List UInt8 → Memory
  | [] => m
  | b :: bs => (m.write a b).writeMany (a + 1) bs

def clip (a : UInt16) (block : List UInt8) : List UInt8 :=
  block.take (memorySize - a.toNat)

def poke (m : Memory) (a : UInt16) (block : List UInt8) : Memory :=
  ⟨overwrite m.bytes a.toNat (clip a block)⟩

def wipe (m : Memory) : Memory :=
  ⟨(m.bytes.toList.take romStart.toNat ++ List.replicate maxRomSize 0).toArray, by simp; rfl⟩

/-- Replaces the program. Nothing of the one before is left. -/
def loadRom (m : Memory) (rom : List UInt8) : Memory :=
  m.wipe.poke romStart rom

theorem getElem?_overwrite {n : Nat} (v : Vector UInt8 n) (i j : Nat) (bs : List UInt8) :
    (overwrite v i bs)[j]? =
      if i ≤ j ∧ j < n ∧ j < i + bs.length then bs[j - i]? else v[j]? := by
  induction bs generalizing v i with
  | nil =>
    rw [if_neg (by rw [List.length_nil]; omega)]
    rfl
  | cons b bs ih =>
    simp only [overwrite, ih, Vector.getElem?_setIfInBounds, List.length_cons]
    by_cases h : i = j
    · subst h
      rw [if_neg (by omega), if_pos rfl]
      by_cases hn : i < n
      · rw [if_pos hn, if_pos (by omega), Nat.sub_self, List.getElem?_cons_zero]
      · rw [if_neg hn, if_neg (by omega), Vector.getElem?_eq_none (by omega)]
    · rw [if_neg h]
      by_cases hj : i < j ∧ j < n ∧ j < i + (bs.length + 1)
      · rw [if_pos (by omega), if_pos (by omega), show j - i = j - (i + 1) + 1 by omega,
          List.getElem?_cons_succ]
      · rw [if_neg (by omega), if_neg (by omega)]

theorem read_of_size_le (m : Memory) {a : UInt16} (h : memorySize ≤ a.toNat) : m.read a = 0 := by
  simp [read, h]

theorem read_write (m : Memory) (a b : UInt16) (v : UInt8) :
    (m.write a v).read b = if a = b ∧ b.toNat < memorySize then v else m.read b := by
  simp only [read, write, Vector.getElem?_setIfInBounds, ← UInt16.toNat_inj]
  by_cases h : a.toNat = b.toNat <;> by_cases hb : b.toNat < memorySize <;> simp [h, hb]

@[simp] theorem length_clip (a : UInt16) (block : List UInt8) :
    (clip a block).length = min (memorySize - a.toNat) block.length := by
  simp [clip]

theorem read_poke (m : Memory) (a b : UInt16) (block : List UInt8) :
    (m.poke a block).read b =
      if a.toNat ≤ b.toNat ∧ b.toNat < memorySize ∧ b.toNat < a.toNat + block.length then
        block[b.toNat - a.toNat]?.getD 0
      else m.read b := by
  simp only [read, poke, getElem?_overwrite, length_clip]
  by_cases h : a.toNat ≤ b.toNat ∧ b.toNat < memorySize ∧ b.toNat < a.toNat + block.length
  · rw [if_pos h, if_pos (by omega), clip, List.getElem?_take, if_pos (by omega)]
  · rw [if_neg h, if_neg (by omega)]

theorem read_wipe (m : Memory) (b : UInt16) :
    m.wipe.read b = if b.toNat < romStart.toNat then m.read b else 0 := by
  have hs : romStart.toNat = 512 := rfl
  have hz : memorySize = 4096 := rfl
  have hl : (m.bytes.toList.take 512).length = 512 := by simp [hz]
  simp only [read, wipe, hs, Vector.getElem?_mk, List.getElem?_toArray, List.getElem?_append, hl]
  by_cases h : b.toNat < 512
  · rw [if_pos h, if_pos h, List.getElem?_take, if_pos h, Vector.getElem?_toList]
  · rw [if_neg h, if_neg h, List.getElem?_replicate]
    split <;> rfl

theorem read_loadRom (m : Memory) (rom : List UInt8) (b : UInt16) :
    (m.loadRom rom).read b =
      if b.toNat < romStart.toNat ∨ memorySize ≤ b.toNat then m.read b
      else rom[b.toNat - romStart.toNat]?.getD 0 := by
  rw [loadRom, read_poke, read_wipe]
  by_cases h : b.toNat < romStart.toNat
  · rw [if_neg (by omega), if_pos h, if_pos (Or.inl h)]
  · by_cases hb : memorySize ≤ b.toNat
    · rw [if_neg (by omega), if_neg h, if_pos (Or.inr hb), read_of_size_le m hb]
    · rw [if_neg (by omega : ¬ (_ ∨ _))]
      by_cases hl : b.toNat < romStart.toNat + rom.length
      · rw [if_pos ⟨by omega, by omega, hl⟩]
      · rw [if_neg (by omega), if_neg h, List.getElem?_eq_none (by omega)]
        rfl

theorem ext_read {m n : Memory} (h : ∀ a, n.read a = m.read a) : n = m := by
  obtain ⟨v⟩ := m
  obtain ⟨w⟩ := n
  congr 1
  apply Vector.ext
  intro i hi
  have ha : (UInt16.ofNat i).toNat = i := by
    rw [UInt16.toNat_ofNat']
    exact Nat.mod_eq_of_lt (Nat.lt_trans hi (by decide))
  have hr := h (UInt16.ofNat i)
  simp only [read, ha, Vector.getElem?_eq_getElem hi, Option.getD_some] at hr
  exact hr

/-- Only what is below the program is kept. -/
theorem loadRom_congr {m n : Memory} (h : ∀ a : UInt16, a.toNat < romStart.toNat → n.read a = m.read a)
    (rom : List UInt8) : n.loadRom rom = m.loadRom rom := by
  apply ext_read
  intro a
  rw [read_loadRom, read_loadRom]
  by_cases hl : a.toNat < romStart.toNat
  · rw [if_pos (.inl hl), if_pos (.inl hl), h a hl]
  · by_cases hs : memorySize ≤ a.toNat
    · rw [if_pos (.inr hs), if_pos (.inr hs), read_of_size_le n hs, read_of_size_le m hs]
    · rw [if_neg (not_or.2 ⟨hl, hs⟩), if_neg (not_or.2 ⟨hl, hs⟩)]

end Memory

end Chip8
