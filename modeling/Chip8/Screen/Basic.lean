/-!
The monochrome screen. A row is a word whose most significant bit is the leftmost pixel, so that a draw is the
exclusive or with a screen that shows nothing but the sprite.
-/

namespace Chip8

structure Screen where
  rows : Vector (BitVec 64) 32
  deriving DecidableEq

namespace Screen

def width : Nat := 64

def height : Nat := 32

def blank : Screen := ⟨Vector.replicate 32 0⟩

/-- Whether a pixel is lit. Nothing is lit off the screen. -/
def pixel (s : Screen) (x y : Nat) : Bool :=
  (s.rows[y]?.getD 0).getMsbD x

/-- Eight pixels in an otherwise dark row, the first of them in column `x`. What passes the right edge is
lost. -/
def spread (x : Nat) (b : UInt8) : BitVec 64 :=
  (b.toBitVec ++ 0#56) >>> x

/-- A sprite alone on the screen. Its corner wraps around, but what passes the right or the lower edge is
lost. -/
def stamp (x y : UInt8) (sprite : List UInt8) : Screen :=
  let left := x.toNat % width
  let top := y.toNat % height
  let sprite := sprite.toArray
  ⟨Vector.ofFn fun row =>
    if row.val < top then 0 else spread left (sprite[row.val - top]?.getD 0)⟩

def xor (s t : Screen) : Screen := ⟨Vector.zipWith (· ^^^ ·) s.rows t.rows⟩

def and (s t : Screen) : Screen := ⟨Vector.zipWith (· &&& ·) s.rows t.rows⟩

def draw (s : Screen) (x y : UInt8) (sprite : List UInt8) : Screen × Bool :=
  let sprite := stamp x y sprite
  (s.xor sprite, s.and sprite != blank)

def rowCount (row : BitVec 64) : Nat := (List.range width).countP row.getMsbD

def litCount (s : Screen) : Nat := s.rows.toList.foldl (fun n row => n + rowCount row) 0

@[simp] theorem pixel_blank (x y : Nat) : blank.pixel x y = false := by
  by_cases h : y < 32 <;> simp [pixel, blank, h]

theorem pixel_of_width_le (s : Screen) {x : Nat} (y : Nat) (h : width ≤ x) : s.pixel x y = false := by
  simp [pixel, BitVec.getMsbD, show ¬ x < 64 from Nat.not_lt.2 h]

theorem pixel_of_height_le (s : Screen) (x : Nat) {y : Nat} (h : height ≤ y) : s.pixel x y = false := by
  have h : ¬ y < 32 := Nat.not_lt.2 h
  simp [pixel, h]

@[simp] theorem pixel_xor (s t : Screen) (x y : Nat) :
    (s.xor t).pixel x y = (s.pixel x y ^^ t.pixel x y) := by
  by_cases h : y < 32 <;> simp [pixel, xor, h]

@[simp] theorem pixel_and (s t : Screen) (x y : Nat) :
    (s.and t).pixel x y = (s.pixel x y && t.pixel x y) := by
  by_cases h : y < 32 <;> simp [pixel, and, h]

end Screen

end Chip8
