/-!
The sixteen byte registers. A register number counts modulo 16.
-/

namespace Chip8

structure Registers where
  cells : Vector UInt8 16 := Vector.replicate 16 0
  deriving DecidableEq

namespace Registers

/-- The register that instructions use for carries and collisions. -/
def flag : UInt8 := 0xF

def get (r : Registers) (x : UInt8) : UInt8 :=
  r.cells[x.toNat % 16]

def set (r : Registers) (x v : UInt8) : Registers :=
  ⟨r.cells.set (x.toNat % 16) v⟩

def upTo (r : Registers) (x : UInt8) : List UInt8 :=
  (List.range (x.toNat + 1)).map fun k => r.get (UInt8.ofNat k)

def setMany (r : Registers) (x : UInt8) : List UInt8 → Registers
  | [] => r
  | v :: vs => (r.set x v).setMany (x + 1) vs

theorem get_set (r : Registers) (x y v : UInt8) :
    (r.set x v).get y = if x.toNat % 16 = y.toNat % 16 then v else r.get y := by
  simp [get, set, Vector.getElem_set]

@[simp] theorem get_set_self (r : Registers) (x v : UInt8) : (r.set x v).get x = v := by
  simp [get_set]

end Registers

end Chip8
