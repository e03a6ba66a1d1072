/-
  SolidTree.Geometry.Vector
  ─────────────────────────
  **TRIPLES AND PAIRS OF COORDINATES.**

  Points, sizes, displacements and triples of angles are all `Vec3`; the
  corners of a flat outline are `Vec2`.  A component is addressed by its
  axis, and arithmetic goes component by component.
-/
import SolidTree.Geometry.Axis
import SolidTree.Number.Scalar

namespace SolidTree

/-- A pair of coordinates in the XY plane. -/
structure Vec2 (α : Type) where
  x : α
  y : α
  deriving Repr, DecidableEq

/-- One value per axis. -/
structure Vec3 (α : Type) where
  x : α
  y : α
  z : α
  deriving Repr, DecidableEq

namespace Vec3

variable {α β : Type}

/-- The component on an axis. -/
def get (v : Vec3 α) : Axis → α
  | .x => v.x
  | .y => v.y
  | .z => v.z

/-- The vector with one component replaced. -/
def set (v : Vec3 α) (axis : Axis) (a : α) : Vec3 α :=
  match axis with
  | .x => { v with x := a }
  | .y => { v with y := a }
  | .z => { v with z := a }

/-- The vector of a function on the axes. -/
def ofFn (f : Axis → α) : Vec3 α := ⟨f .x, f .y, f .z⟩

/-- A function applied to every component. -/
def map (f : α → β) (v : Vec3 α) : Vec3 β := ⟨f v.x, f v.y, f v.z⟩

/-- A function applied to the components of two vectors, axis by axis. -/
def zipWith (f : α → α → β) (v w : Vec3 α) : Vec3 β := ⟨f v.x w.x, f v.y w.y, f v.z w.z⟩

/-- The components in the order of the axes. -/
def toList (v : Vec3 α) : List α := [v.x, v.y, v.z]

/-- Vectors with the same components are equal. -/
theorem ext_get {v w : Vec3 α} (h : ∀ a, v.get a = w.get a) : v = w := by
  cases v; cases w
  exact congr (congr (congrArg mk (h .x)) (h .y)) (h .z)

@[simp] theorem get_ofFn (f : Axis → α) (a : Axis) : (ofFn f).get a = f a := by
  cases a <;> rfl

@[simp] theorem get_map (f : α → β) (v : Vec3 α) (a : Axis) : (v.map f).get a = f (v.get a) := by
  cases a <;> rfl

@[simp] theorem get_zipWith (f : α → α → β) (v w : Vec3 α) (a : Axis) :
    (zipWith f v w).get a = f (v.get a) (w.get a) := by
  cases a <;> rfl

instance [Zero α] : Zero (Vec3 α) := ⟨⟨0, 0, 0⟩⟩

instance [Add α] : Add (Vec3 α) := ⟨zipWith (· + ·)⟩

instance [Sub α] : Sub (Vec3 α) := ⟨zipWith (· - ·)⟩

instance [Neg α] : Neg (Vec3 α) := ⟨map (-·)⟩

/-- Every component equals zero. -/
def isZero [Zero α] [BEq α] (v : Vec3 α) : Bool := v.x == 0 && v.y == 0 && v.z == 0

@[simp] theorem get_zero [Zero α] (a : Axis) : (0 : Vec3 α).get a = 0 := by
  cases a <;> rfl

theorem isZero_iff [Zero α] [BEq α] [LawfulBEq α] {v : Vec3 α} : v.isZero = true ↔ v = 0 := by
  obtain ⟨x, y, z⟩ := v
  simp only [isZero, Bool.and_eq_true, beq_iff_eq, and_assoc]
  exact (mk.injEq x y z 0 0 0).to_iff.symm

end Vec3

end SolidTree
