/-
  SolidTree.Geometry.Extents
  ──────────────────────────
  **BOXES THAT ARE KNOWN EDGE BY EDGE.**

  Some elements have edges that cannot be known: the right end of a text,
  every side of an imported mesh.  So a measure is six results, each a
  coordinate or a fault of its own, and an operator maps results to results:

      Extents.union xs  — on each edge the outermost of the results there
      span, middle      — length and center on one axis
      box               — all six, or the fault of the first unknown edge
-/
import SolidTree.Fault
import SolidTree.Geometry.Box

namespace SolidTree

/-- A coordinate, or why there is none. -/
abbrev Reading (α : Type) := Except (Fault α) α

/-- The six edges of an element, each known or failed on its own. -/
structure Extents (α : Type) where
  left : Reading α
  right : Reading α
  back : Reading α
  front : Reading α
  bottom : Reading α
  top : Reading α

namespace Extents

variable {α : Type}

/-! ## §1. The six readings. -/

/-- The reading at an edge. -/
def get (x : Extents α) : Edge → Reading α
  | .left => x.left
  | .right => x.right
  | .back => x.back
  | .front => x.front
  | .bottom => x.bottom
  | .top => x.top

/-- The readings of a function. -/
def ofFn (f : Edge → Reading α) : Extents α :=
  ⟨f .left, f .right, f .back, f .front, f .bottom, f .top⟩

@[simp] theorem get_ofFn (f : Edge → Reading α) (e : Edge) : (ofFn f).get e = f e := by
  cases e <;> rfl

@[ext] theorem ext_get {x y : Extents α} (h : ∀ e, x.get e = y.get e) : x = y := by
  cases x; cases y
  have := h .left; have := h .right; have := h .back
  have := h .front; have := h .bottom; have := h .top
  simp_all [get]

/-- No edge is known, for one reason. -/
def failed (fault : Fault α) : Extents α := ofFn fun _ => .error fault

variable [Scalar α]

/-- The readings of a box: every edge is known. -/
def ofBox (b : BoundingBox α) : Extents α := ofFn fun e => .ok (b.get e)

/-! ## §2. Unions. -/

/-- The outer one of two coordinates on a side. -/
def outer : Side → α → α → α
  | .min => Scalar.lesser
  | .max => Scalar.greater

/-- The outermost of some readings on a side, the first fault if there is one, and
the origin for no readings at all. -/
def outermost (side : Side) (readings : List (Reading α)) :
    Except (Fault α) α := do
  match ← readings.mapM id with
  | [] => return 0
  | a :: rest => return rest.foldl (outer side) a

/-- The extents of a union: outermost on every edge. Nothing sits at the origin. -/
def union (xs : List (Extents α)) : Extents α :=
  ofFn fun e => outermost e.side (xs.map (·.get e))

/-! ## §3. Lengths, middles and boxes. -/

/-- Length on an axis; the high edge is read first. -/
def span (x : Extents α) (axis : Axis) : Except (Fault α) α := do
  let high ← x.get (.on axis .max)
  let low ← x.get (.on axis .min)
  return high - low

/-- Middle on an axis; the high edge is read first. -/
def middle (x : Extents α) (axis : Axis) : Except (Fault α) α := do
  let high ← x.get (.on axis .max)
  let low ← x.get (.on axis .min)
  return (high + low) / 2.0

/-- The box, if every edge is known; else the fault of the first edge that is not. -/
def box (x : Extents α) : Except (Fault α) (BoundingBox α) := do
  let left ← x.left
  let right ← x.right
  let back ← x.back
  let front ← x.front
  let bottom ← x.bottom
  let top ← x.top
  return ⟨⟨left, back, bottom⟩, ⟨right, front, top⟩⟩

end Extents

end SolidTree
