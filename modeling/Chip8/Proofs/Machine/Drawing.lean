import Chip8.Proofs.Machine.Blocks
import Chip8.Proofs.Screen.Sprite

/-! A draw is a clipped exclusive or, of the screen alone and of the screen in a machine that draws the bytes from the
index on. -/

namespace Chip8

open Finset Screen

/-- What a draw makes of a screen: every pixel under the sprite is turned over, one of them that was lit is a collision,
and the lit pixels are counted. -/
structure Screen.Blits (s : Screen) (x y : UInt8) (sprite : List UInt8) (drawn : Screen × Bool) : Prop where
  pixel : ∀ px < width, ∀ py < height,
    drawn.1.pixel px py = (s.pixel px py ^^ decide (Covers x y sprite px py))
  collision : drawn.2 = true ↔ ∃ px < width, ∃ py < height, Covers x y sprite px py ∧ s.pixel px py = true
  litCount :
    drawn.1.litCount + 2 * #{p ∈ grid width height | Covers x y sprite p.1 p.2 ∧ s.pixel p.1 p.2 = true} =
      s.litCount + #{p ∈ grid width height | Covers x y sprite p.1 p.2}

lemma Screen.draw_blits (s : Screen) (x y : UInt8) (sprite : List UInt8) : Blits s x y sprite (s.draw x y sprite) where
  pixel _ hx _ hy := pixel_draw s x y sprite hx hy
  collision := draw_collides_iff s x y sprite
  litCount := litCount_draw s x y sprite

namespace Machine

variable (m : Machine) (x y height : UInt8)

lemma execute_draw :
    m.execute (.draw x y height) =
      .ok { machine :=
        { m with
          screen := (m.screen.draw (m.reg x) (m.reg y) (m.block height.toNat)).1
          registers := m.registers.set Registers.flag
            (m.screen.draw (m.reg x) (m.reg y) (m.block height.toNat)).2.toUInt8 } } := rfl

end Machine

theorem drawing_is_clipped_xor :
    (∀ (s : Screen) (x y : UInt8) (sprite : List UInt8), Blits s x y sprite (s.draw x y sprite)) ∧
      ∀ (m : Machine) (x y height : UInt8), height ≤ 16 →
        m.accepts (.draw x y height) = true ∧
          ∃ drawn,
            Blits m.screen (m.reg x) (m.reg y)
              ((List.range height.toNat).map fun k => m.memory.read (m.index + UInt16.ofNat k)) drawn ∧
            m.execute (.draw x y height) =
              .ok { machine :=
                { m with
                  screen := drawn.1
                  registers := m.registers.set Registers.flag drawn.2.toUInt8 } } := by
  refine ⟨draw_blits, fun m x y height hh => ⟨decide_eq_true hh, _, ?_, m.execute_draw x y height⟩⟩
  rw [Machine.block_eq_map]
  exact draw_blits ..

/-- A corner of the screen that cuts a sprite off on two sides, and three rows that begin at the last byte of memory,
drawn at a place that the flag itself holds. -/
theorem drawing_is_clipped_xor_corner :
    63 < width ∧ 31 < Screen.height ∧
      (blank.draw 0xFE 0xFF [0xC0, 0x80]).1.pixel 63 31 =
        (blank.pixel 63 31 ^^ decide (Covers 0xFE 0xFF [0xC0, 0x80] 63 31)) ∧
      (3 : UInt8) ≤ 16 ∧
        let m : Machine := { memory := .ofFont .standard, index := 0xFFF, random := { key := Vector.replicate 8 0 } }
        m.accepts (.draw 0 Registers.flag 3) = true ∧
          ∃ drawn,
            Blits m.screen (m.reg 0) (m.reg Registers.flag)
              ((List.range 3).map fun k => m.memory.read (m.index + UInt16.ofNat k)) drawn ∧
            m.execute (.draw 0 Registers.flag 3) =
              .ok { machine :=
                { m with
                  screen := drawn.1
                  registers := m.registers.set Registers.flag drawn.2.toUInt8 } } := by
  obtain ⟨hs, hm⟩ := drawing_is_clipped_xor
  have hx : 63 < width := by decide
  have hy : 31 < Screen.height := by decide
  have hh : (3 : UInt8) ≤ 16 := by decide
  exact ⟨hx, hy, (hs blank 0xFE 0xFF [0xC0, 0x80]).pixel 63 hx 31 hy, hh, hm _ 0 Registers.flag 3 hh⟩

end Chip8
