/-
  SolidTree.Proofs.Space.Region
  ─────────────────────────────
  **THE POINTS OF A TREE.**

  A tree stands for a set of points of space.  Round shapes are round, an
  offset is a growth by a disc, and a rotation that counts as quarter turns
  is one by exactly these.  A part shows its structural children.

  An `Interpretation` settles what is left open.  How a polygon or a
  polyhedron is filled is one such thing, and all that is asked of it is
  that the corners named by its paths are there, and nothing out of their
  convex hull.  The rest are texts, meshes from files, and the operators
  whose boxes are no matter of points: extrusions, sweeps and cuts.
-/
import Mathlib.Analysis.Convex.Hull
import SolidTree.Proofs.Meaning.Calls
import SolidTree.Proofs.Rotation.Accepted
import SolidTree.Proofs.Space.Point

namespace SolidTree

/-! ## §1. Corners. -/

/-- A corner of a flat outline. -/
def Vec2.point (c : Vec2 ℚ) : Point := fun
  | .x => c.x
  | .y => c.y
  | .z => 0

/-- A corner of a solid. -/
def Vec3.point (c : Vec3 ℚ) : Point := fun axis => c.get axis

/-- The points that some paths name by their positions. -/
def pointsAlong {β : Type} (points : List β) (paths : List (List UInt64)) : List β :=
  paths.flatten.filterMap fun i => points[i.toNat]?

/-- The corners of a shape that is given by corners. -/
def Primitive.corners? : Primitive ℚ → Option (List Point)
  | .polygon points none _ => some (points.map Vec2.point)
  | .polygon points (some paths) _ => some ((pointsAlong points paths).map Vec2.point)
  | .polyhedron points faces _ => some ((pointsAlong points faces).map Vec3.point)
  | _ => none

/-! ## §2. Interpretations. -/

/-- The points of what has no closed form. -/
structure Interpretation where
  /-- Polygons, polyhedra, texts and meshes from files. -/
  shape : Primitive ℚ → Set Point
  /-- Extrusions, sweeps, cuts, and offsets by other means than a disc. -/
  operator : Operator ℚ → Set Point → Set Point
  corner_mem : ∀ {s corners}, s.corners? = some corners → ∀ c ∈ corners, c ∈ shape s
  subset_hull : ∀ {s corners}, s.corners? = some corners →
    shape s ⊆ convexHull ℝ {c | c ∈ corners}

/-! ## §3. Shapes. -/

/-- The points of a leaf. The radius of a cylinder goes from the one at its bottom to the
one at its top. -/
def Primitive.points (I : Interpretation) : Primitive ℚ → Set Point
  | .cube size => {p | ∀ axis, |p axis| ≤ size.get axis / 2}
  | .cylinder height diameter topDiameter _ =>
    {p | ∃ t : ℝ, 0 ≤ t ∧ t ≤ 1 ∧ p .z = height * (t - 1 / 2) ∧
      p .x ^ 2 + p .y ^ 2 ≤ (((1 - t) * diameter + t * (topDiameter.getD diameter : ℚ)) / 2) ^ 2}
  | .sphere diameter _ => {p | p .x ^ 2 + p .y ^ 2 + p .z ^ 2 ≤ (diameter / 2 : ℝ) ^ 2}
  | .circle diameter _ => {p | p .x ^ 2 + p .y ^ 2 ≤ (diameter / 2 : ℝ) ^ 2 ∧ p .z = 0}
  | .square width depth => {p | |p .x| ≤ width / 2 ∧ |p .y| ≤ depth / 2 ∧ p .z = 0}
  | s => I.shape s

/-! ## §4. Operators. -/

namespace Point

/-- The angles that a rotation is made by: quarter turns if all three count as such. -/
def settled (a : Vec3 ℚ) : Vec3 ℚ :=
  if ∀ axis, QuarterTurn.Near (a.get axis) (round (a.get axis / 90))
  then a.map fun x => 90 * round (x / 90)
  else a

/-- The rotation about X, then about Y, then about Z. -/
noncomputable def rotate (a : Vec3 ℚ) : Point → Point :=
  rotateAbout .z (settled a).z ∘ rotateAbout .y (settled a).y ∘ rotateAbout .x (settled a).x

/-- The reflection in the plane through the origin with this normal. -/
noncomputable def reflect (normal : Vec3 ℚ) (p : Point) : Point := fun axis =>
  p axis - 2 * (p .x * normal.x + p .y * normal.y + p .z * normal.z)
    / ((normal.x : ℝ) ^ 2 + normal.y ^ 2 + normal.z ^ 2) * normal.get axis

/-- The point right below or above on the XY plane. -/
def shadow (p : Point) : Point := fun
  | .z => 0
  | axis => p axis

end Point

/-- All points that are within a disc about a point of the set. -/
def grown (r : ℚ) (S : Set Point) : Set Point :=
  {q | ∃ p ∈ S, (q .x - p .x) ^ 2 + (q .y - p .y) ^ 2 ≤ (r : ℝ) ^ 2 ∧ q .z = p .z}

/-- All sums of one point of each set. -/
def summed : List (Set Point) → Set Point
  | [] => {0}
  | S :: rest => Set.image2 (· + ·) S (summed rest)

/-- What an operator makes of a set of points. -/
noncomputable def Operator.act (I : Interpretation) (op : Operator ℚ) (S : Set Point) :
    Set Point :=
  match op with
  | .translate v => (· + v.point) '' S
  | .rotate a => Point.rotate a '' S
  | .scale factors => (· * factors.point) '' S
  | .mirror normal => Point.reflect normal '' S
  | .offset (some r) _ _ => if 0 ≤ r then grown r S else I.operator op S
  | .projection false => Point.shadow '' S
  | .color .. | .render _ => S
  | .hull => convexHull ℝ S
  | _ => I.operator op S

/-- What an operator makes of its operands. One alone tells them apart. -/
noncomputable def Operator.points (I : Interpretation) (op : Operator ℚ)
    (sets : List (Set Point)) : Set Point :=
  match op with
  | .minkowski => summed sets
  | _ => op.act I (joined sets)

theorem Operator.points_eq_act (I : Interpretation) {op : Operator ℚ} (h : op ≠ .minkowski)
    (sets : List (Set Point)) : op.points I sets = op.act I (joined sets) := by
  cases op <;> first | rfl | exact absurd rfl h

/-! ## §5. Trees. -/

mutual

/-- The points of a tree. -/
noncomputable def Node.points (I : Interpretation) : Node ℚ → Set Point
  | .leaf _ shape => shape.points I
  | .apply _ op children => op.points I (pointsOfAll I children)
  | .compose _ op operands => op.act (pointsOfAll I operands)
  | .part _ ⟨_, children, _, _, _⟩ => joined (pointsOfSlots I children)

/-- The points of each tree of a list. -/
noncomputable def pointsOfAll (I : Interpretation) : List (Node ℚ) → List (Set Point)
  | [] => []
  | n :: rest => n.points I :: pointsOfAll I rest

/-- The points of each member of a list. -/
noncomputable def pointsOfSlots (I : Interpretation) : List (Slot (Node ℚ)) → List (Set Point)
  | [] => []
  | ⟨_, n⟩ :: rest => n.points I :: pointsOfSlots I rest

end

theorem pointsOfAll_eq_map (I : Interpretation) (ns : List (Node ℚ)) :
    pointsOfAll I ns = ns.map (·.points I) := by
  induction ns with
  | nil => rfl
  | cons n rest ih => rw [pointsOfAll, ih, List.map_cons]

theorem pointsOfSlots_eq_map (I : Interpretation) (slots : List (Slot (Node ℚ))) :
    pointsOfSlots I slots = slots.map (·.node.points I) := by
  induction slots with
  | nil => rfl
  | cons s rest ih => rw [pointsOfSlots, ih, List.map_cons]

namespace Node

variable (I : Interpretation) (tag : Tag)

theorem points_apply (op : Operator ℚ) (children : List (Node ℚ)) :
    (Node.apply tag op children).points I = op.points I (children.map (·.points I)) := by
  rw [← pointsOfAll_eq_map]
  rfl

theorem points_compose (op : SetOperation) (operands : List (Node ℚ)) :
    (Node.compose tag op operands).points I = op.act (operands.map (·.points I)) := by
  rw [← pointsOfAll_eq_map]
  rfl

theorem points_part (members : Part ℚ) :
    (Node.part tag members).points I = joined (members.children.map (·.node.points I)) := by
  rw [← pointsOfSlots_eq_map]
  rfl

end Node

end SolidTree
