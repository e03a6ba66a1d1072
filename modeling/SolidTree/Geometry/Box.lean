/-
  SolidTree.Geometry.Box
  ──────────────────────
  **AXIS-ALIGNED BOXES.**

  A box is its lowest and its highest corner.  The box around nothing has
  its corners at the infinities, on the wrong sides, and every operation
  that grows a box can start from it:

      empty.grow p ...     — the least box around the points given so far
      a.union b            — the least box around both
      a.intersection b     — what both have in common, possibly inverted
-/
import SolidTree.Geometry.Vector

namespace SolidTree

/-- A box with edges along the axes. -/
structure BoundingBox (α : Type) where
  min : Vec3 α
  max : Vec3 α
  deriving Repr, DecidableEq

namespace BoundingBox

variable {α : Type} [Scalar α]

/-! ## §1. Edges of a box. -/

/-- The coordinate of an edge. -/
def get (b : BoundingBox α) (e : Edge) : α :=
  match e.side with
  | .min => b.min.get e.axis
  | .max => b.max.get e.axis

/-- The box with one edge moved. -/
def set (b : BoundingBox α) (e : Edge) (a : α) : BoundingBox α :=
  match e.side with
  | .min => { b with min := b.min.set e.axis a }
  | .max => { b with max := b.max.set e.axis a }

/-- The box with the edges of a function. -/
def ofFn (f : Edge → α) : BoundingBox α where
  min := .ofFn fun axis => f (.on axis .min)
  max := .ofFn fun axis => f (.on axis .max)

omit [Scalar α] in
@[simp] theorem get_ofFn (f : Edge → α) (e : Edge) : (ofFn f).get e = f e := by
  cases e <;> rfl

/-! ## §2. Boxes around points. -/

/-- The point at the origin. -/
def zero : BoundingBox α := ⟨0, 0⟩

/-- The box around nothing. -/
def empty : BoundingBox α where
  min := .ofFn fun _ => Scalar.infinity
  max := .ofFn fun _ => -Scalar.infinity

/-- Some axis has its high edge below its low edge. -/
def isEmpty (b : BoundingBox α) : Bool :=
  Axis.all.any fun axis => b.max.get axis < b.min.get axis

/-- The box grown to reach a point. -/
def grow (b : BoundingBox α) (p : Vec3 α) : BoundingBox α where
  min := .zipWith Scalar.lesser b.min p
  max := .zipWith Scalar.greater b.max p

/-- The least box around some points. -/
def ofPoints (points : List (Vec3 α)) : BoundingBox α := points.foldl grow empty

/-! ## §3. Measures of a box. -/

/-- The middle. -/
def center (b : BoundingBox α) : Vec3 α := (b.min + b.max).map (· * 0.5)

/-- Length along each axis. -/
def size (b : BoundingBox α) : Vec3 α := b.max - b.min

/-- Product of the three lengths. -/
def volume (b : BoundingBox α) : α := b.size.x * b.size.y * b.size.z

/-- All edges of two boxes are less than `tolerance` apart. -/
def close (b c : BoundingBox α) (tolerance : α) : Bool :=
  Edge.all.all fun e => Scalar.abs (b.get e - c.get e) < tolerance

/-! ## §4. Boxes from boxes. -/

/-- The first of two if it is not above the second. -/
def lowerOf (a b : α) : α := if a ≤ b then a else b

/-- The first of two if it is not below the second. -/
def upperOf (a b : α) : α := if b ≤ a then a else b

/-- The least box around both. -/
def union (b c : BoundingBox α) : BoundingBox α where
  min := .zipWith lowerOf b.min c.min
  max := .zipWith upperOf b.max c.max

/-- The overlap; an axis on which the boxes are apart comes out inverted. -/
def intersection (b c : BoundingBox α) : BoundingBox α where
  min := .zipWith upperOf b.min c.min
  max := .zipWith lowerOf b.max c.max

/-- The box moved by an offset. -/
def translate (b : BoundingBox α) (offset : Vec3 α) : BoundingBox α :=
  ⟨b.min + offset, b.max + offset⟩

end BoundingBox

end SolidTree
