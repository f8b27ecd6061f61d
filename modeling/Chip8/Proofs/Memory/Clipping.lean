import Chip8.Memory
import Mathlib.Tactic.Lemma

/-! Blocks that are copied into memory from outside, a program among them. They are cut off at the end of memory, so
that no index is out of bounds and no address wraps around. -/

namespace Chip8.Memory

/-- Overwrites a vector from an index on. There is no result if an index is out of bounds. -/
def overwrite? {n : Nat} (v : Vector UInt8 n) (i : Nat) : List UInt8 → Option (Vector UInt8 n)
  | [] => if i ≤ n then some v else none
  | b :: bs => if h : i < n then overwrite? (v.set i b) (i + 1) bs else none

/-- Copies what there is room for and counts it. There is no result if a bound is not kept: that of the subtraction,
that of the block, or one of those of memory. -/
def poke? (m : Memory) (a : UInt16) (block : List UInt8) : Option (Nat × Memory) :=
  let start := min a.toNat memorySize
  let count := min block.length (memorySize - start)
  if start ≤ memorySize ∧ count ≤ block.length then
    (overwrite? m.bytes start (block.take count)).map fun bytes => (count, ⟨bytes⟩)
  else none

/-- Writes bytes one at a time, up to the last address that there is. -/
def writeOnward (m : Memory) (i : Nat) : List UInt8 → Memory
  | [] => m
  | b :: bs => if h : i < UInt16.size then (m.write (.ofNatLT i h) b).writeOnward (i + 1) bs else m

section

variable {n : Nat} (v : Vector UInt8 n) (i : Nat) (bs : List UInt8)

lemma overwrite_of_le {i : Nat} (h : n ≤ i) : overwrite v i bs = v := by
  induction bs generalizing i with
  | nil => rfl
  | cons b bs ih => rw [overwrite, Vector.setIfInBounds_eq_of_size_le h, ih (Nat.le_succ_of_le h)]

lemma overwrite_take : overwrite v i (bs.take (n - i)) = overwrite v i bs := by
  induction bs generalizing v i with
  | nil => rw [List.take_nil]
  | cons b bs ih =>
    by_cases h : i < n
    · have hs : n - i = n - (i + 1) + 1 := by omega
      rw [hs, List.take_succ_cons, overwrite, overwrite, ih]
    · have hn : n ≤ i := Nat.not_lt.1 h
      rw [overwrite_of_le v _ hn, overwrite_of_le v _ hn]

lemma overwrite?_eq : overwrite? v i bs = if i + bs.length ≤ n then some (overwrite v i bs) else none := by
  induction bs generalizing v i with
  | nil => rfl
  | cons b bs ih =>
    by_cases h : i < n
    · have hs : v.setIfInBounds i b = v.set i b := by
        ext j hj
        simp [Vector.getElem_set, Vector.getElem_setIfInBounds]
      rw [overwrite?, dif_pos h, ih, overwrite, hs, List.length_cons, Nat.add_right_comm, Nat.add_assoc]
    · rw [overwrite?, dif_neg h, if_neg (by rw [List.length_cons]; omega)]

/-- Where the copy starts and how much it takes are cut off at the end without a change of what it leaves behind. -/
lemma overwrite_min :
    overwrite v (min i n) (bs.take (min bs.length (n - min i n))) = overwrite v i (bs.take (n - i)) := by
  rcases Nat.le_total i n with h | h
  · rw [Nat.min_eq_left h, Nat.min_comm, ← List.take_eq_take_min]
  · rw [overwrite_of_le v _ h, overwrite_of_le v _ (by omega)]

end

variable (m : Memory) (a : UInt16) (block : List UInt8)

lemma bytes_writeOnward (i : Nat) : (m.writeOnward i block).bytes = overwrite m.bytes i block := by
  induction block generalizing m i with
  | nil => rfl
  | cons b block ih =>
    by_cases h : i < UInt16.size
    · rw [writeOnward, dif_pos h, ih, overwrite, write, UInt16.toNat_ofNatLT]
    · have hs : memorySize ≤ i := Nat.le_trans (by decide) (Nat.not_lt.1 h)
      rw [writeOnward, dif_neg h, overwrite_of_le _ _ hs]

lemma poke_eq_writeOnward : m.poke a block = m.writeOnward a.toNat block := by
  have h : (m.poke a block).bytes = (m.writeOnward a.toNat block).bytes := by
    rw [bytes_writeOnward, poke, clip, overwrite_take]
  exact congrArg Memory.mk h

lemma poke?_eq :
    m.poke? a block = some (min block.length (memorySize - min a.toNat memorySize), m.poke a block) := by
  rw [poke?, if_pos ⟨Nat.min_le_right .., Nat.min_le_left ..⟩, overwrite?_eq,
    if_pos (by rw [List.length_take]; omega), overwrite_min]
  rfl

lemma read_loadRom_below {b : UInt16} (h : b < romStart) : (m.loadRom block).read b = m.read b := by
  rw [read_loadRom, if_pos (.inl (UInt16.lt_iff_toNat_lt.1 h))]

lemma read_loadRom_program {k : Nat} (h : k < maxRomSize) :
    (m.loadRom block).read (romStart + .ofNat k) = block.getD k 0 := by
  have hmax : maxRomSize = 3584 := rfl
  have hsize : memorySize = 4096 := rfl
  have hstart : romStart.toNat = 512 := rfl
  have hk : (romStart + .ofNat k).toNat = 512 + k := by
    rw [UInt16.toNat_add, UInt16.toNat_ofNat', hstart]
    omega
  rw [read_loadRom, hk, hstart, if_neg (by omega), Nat.add_sub_cancel_left, List.getD_eq_getElem?_getD]

/-- `n` is what `m` becomes with a block at an address, of which it takes no more than fits. -/
structure Clips (n : Memory) : Prop where
  count : (clip a block).length = min block.length (memorySize - min a.toNat memorySize)
  inBounds : m.poke? a block = some ((clip a block).length, n)
  copied : ∀ b, a ≤ b → b.toNat < memorySize → b.toNat < a.toNat + block.length →
    block[b.toNat - a.toNat]? = some (n.read b)
  kept : ∀ b, ¬ (a ≤ b ∧ b.toNat < memorySize ∧ b.toNat < a.toNat + block.length) → n.read b = m.read b
  onward : n = m.writeOnward a.toNat block

/-- `n` is what `m` becomes with a program in place of the one before. -/
structure Loads (rom : List UInt8) (n : Memory) : Prop where
  inBounds : m.wipe.poke? romStart rom = some (min rom.length maxRomSize, n)
  below : ∀ b < romStart, n.read b = m.read b
  program : ∀ k < maxRomSize, n.read (romStart + .ofNat k) = rom.getD k 0
  last : ∀ before, (m.loadRom before).loadRom rom = n

theorem blocks_clip :
    (∀ a block, m.Clips a block (m.poke a block)) ∧ ∀ rom, m.Loads rom (m.loadRom rom) := by
  constructor
  · intro a block
    have hcount : (clip a block).length = min block.length (memorySize - min a.toNat memorySize) := by
      rw [length_clip]
      omega
    constructor
    case count => exact hcount
    case inBounds => rw [hcount, poke?_eq]
    case copied =>
      intro b hle hsize hlt
      have hb : a.toNat ≤ b.toNat := UInt16.le_iff_toNat_le.1 hle
      rw [read_poke, if_pos ⟨hb, hsize, hlt⟩, List.getElem?_eq_getElem (by omega), Option.getD_some]
    case kept =>
      intro b hout
      rw [UInt16.le_iff_toNat_le] at hout
      rw [read_poke, if_neg hout]
    case onward => exact m.poke_eq_writeOnward a block
  · intro rom
    constructor
    case inBounds => exact m.wipe.poke?_eq romStart rom
    case below => exact fun b hb => m.read_loadRom_below rom hb
    case program => exact fun k hk => m.read_loadRom_program rom hk
    case last =>
      exact fun before => loadRom_congr (fun b hb => m.read_loadRom_below before (UInt16.lt_iff_toNat_lt.2 hb)) rom

/-- A block that passes the end of memory, one that would come around to the font, and a program that is shorter than
the one before. -/
theorem blocks_clip_end :
    let m := ofFont .standard
    let n := m.poke 0xFFE [1, 2, 3, 4]
    let k := m.poke 0xFFFF [5, 6]
    let l := m.loadRom [0x11]
    (m.Clips 0xFFE [1, 2, 3, 4] n ∧ (clip 0xFFE [1, 2, 3, 4]).length = 2 ∧ n.read 0xFFF = 2 ∧
        n.read 0x1000 = 0) ∧
      (m.Clips 0xFFFF [5, 6] k ∧ (clip 0xFFFF [5, 6]).length = 0 ∧ k.read 0 = m.read 0) ∧
      m.Loads [0x11] l ∧ l.read 0x1FF = m.read 0x1FF ∧ l.read 0x200 = 0x11 ∧ l.read 0x201 = 0 ∧
      (m.loadRom [0xAA, 0xBB, 0xCC]).loadRom [0x11] = l := by
  intro m n k l
  obtain ⟨hclips, hloads⟩ := blocks_clip m
  have hn : m.Clips 0xFFE [1, 2, 3, 4] n := hclips 0xFFE [1, 2, 3, 4]
  have hk : m.Clips 0xFFFF [5, 6] k := hclips 0xFFFF [5, 6]
  have hl : m.Loads [0x11] l := hloads [0x11]
  have hlast : n.read 0xFFF = 2 := (Option.some.inj (hn.copied 0xFFF (by decide) (by decide) (by decide))).symm
  have hpast : n.read 0x1000 = 0 := (hn.kept 0x1000 (by decide)).trans (m.read_of_size_le (by decide))
  exact ⟨⟨hn, hn.count, hlast, hpast⟩, ⟨hk, hk.count, hk.kept 0 (by decide)⟩, hl, hl.below 0x1FF (by decide),
    hl.program 0 (by decide), hl.program 1 (by decide), hl.last [0xAA, 0xBB, 0xCC]⟩

end Chip8.Memory
