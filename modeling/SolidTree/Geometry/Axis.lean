/-
  SolidTree.Geometry.Axis
  ───────────────────────
  **AXES, SIDES AND EDGES.**

  A box has six edges: the low and the high side of each axis.

      axis   low side   high side
      x      left       right
      y      back       front
      z      bottom     top
-/
namespace SolidTree

/-! ## §1. Axes. -/

/-- One of the three axes of space. -/
inductive Axis where
  | x
  | y
  | z
  deriving Repr, DecidableEq

namespace Axis

/-- The axes in order. -/
def all : List Axis := [.x, .y, .z]

/-- Position in `all`. -/
def index : Axis → Nat
  | .x => 0
  | .y => 1
  | .z => 2

/-- The axis at a position, counted around in threes. -/
def ofIndex (i : Nat) : Axis :=
  match i % 3 with
  | 0 => .x
  | 1 => .y
  | _ => .z

/-- Name of the axis. -/
def name : Axis → String
  | .x => "x"
  | .y => "y"
  | .z => "z"

/-- Name of the middle of a box on this axis. -/
def centerName : Axis → String
  | .x => "center_x"
  | .y => "center_y"
  | .z => "center_z"

theorem ofIndex_index (a : Axis) : ofIndex a.index = a := by
  cases a <;> rfl

end Axis

/-! ## §2. Sides. -/

/-- Lower or upper end of an axis. -/
inductive Side where
  | min
  | max
  deriving Repr, DecidableEq

/-- The other end. -/
def Side.opposite : Side → Side
  | .min => .max
  | .max => .min

/-! ## §3. Edges. -/

/-- One of the six extrema of a box. -/
inductive Edge where
  | left
  | right
  | back
  | front
  | bottom
  | top
  deriving Repr, DecidableEq

namespace Edge

/-- The edges in order: axis by axis, the low side first. -/
def all : List Edge := [.left, .right, .back, .front, .bottom, .top]

/-- The edge on one side of an axis. -/
def on : Axis → Side → Edge
  | .x, .min => .left
  | .x, .max => .right
  | .y, .min => .back
  | .y, .max => .front
  | .z, .min => .bottom
  | .z, .max => .top

/-- The axis that the edge lies on. -/
def axis : Edge → Axis
  | .left | .right => .x
  | .back | .front => .y
  | .bottom | .top => .z

/-- The side of its axis. -/
def side : Edge → Side
  | .left | .back | .bottom => .min
  | .right | .front | .top => .max

/-- The other edge of the same axis. -/
def opposite (e : Edge) : Edge := on e.axis e.side.opposite

/-- Position in `all`. -/
def index (e : Edge) : Nat :=
  2 * e.axis.index + match e.side with
    | .min => 0
    | .max => 1

/-- Name of the edge. -/
def name : Edge → String
  | .left => "left"
  | .right => "right"
  | .back => "back"
  | .front => "front"
  | .bottom => "bottom"
  | .top => "top"

theorem on_axis_side (e : Edge) : on e.axis e.side = e := by
  cases e <;> rfl

@[simp] theorem axis_on (a : Axis) (s : Side) : (on a s).axis = a := by
  cases a <;> cases s <;> rfl

@[simp] theorem side_on (a : Axis) (s : Side) : (on a s).side = s := by
  cases a <;> cases s <;> rfl

/-- Each axis has two edges, and there are no others. -/
theorem forall_iff {P : Edge → Prop} :
    (∀ e, P e) ↔ ∀ axis, P (.on axis .min) ∧ P (.on axis .max) := by
  constructor
  · intro h axis
    exact ⟨h _, h _⟩
  · intro h e
    rw [← e.on_axis_side]
    cases e.side
    · exact (h e.axis).1
    · exact (h e.axis).2

@[simp] theorem opposite_opposite (e : Edge) : e.opposite.opposite = e := by
  cases e <;> rfl

@[simp] theorem opposite_on (a : Axis) (s : Side) : (on a s).opposite = on a s.opposite := by
  cases a <;> cases s <;> rfl

theorem all_get_index (e : Edge) : all[e.index]? = some e := by
  cases e <;> rfl

end Edge

end SolidTree
