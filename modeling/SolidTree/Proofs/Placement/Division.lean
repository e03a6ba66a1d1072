/-
  SolidTree.Proofs.Placement.Division
  ───────────────────────────────────
  **NODES CUT IN TWO.**

  A node is cut by what it has in common with two cuboids: its box, with one
  edge moved to either side of the plane.  Each cuboid is a cube around the
  origin that is then moved, and it reads as the box that it is made of, also
  where that is inverted; and if the node is an overlap already, the cuboid is
  one more of its operands.

      b.points       — the points between the edges of a box
      IsSpatial M    — under the reading `M` of trees as sets of points,
                       overlaps, cubes and moved cubes are what they say

  Both halves are one thing, a node trimmed by its box with one edge moved, so
  that what is said of it is said once.

  Main results:
    * `get_extents_trimmed`, `IsSpatial.trimmed` — the edges and the points of
      a node that is trimmed on one side
    * `divide_cuts` — when a node can be cut, and what the halves are
-/
import SolidTree.Proofs.Composition.Splicing
import SolidTree.Proofs.Placement.Alignment
import SolidTree.Proofs.Space.Boxes

namespace SolidTree

/-! ## §1. Boxes with a moved edge. -/

namespace BoundingBox

variable (b : BoundingBox ℚ)

/-- The points between the edges of the box. -/
def points : Set Point := {p | ∀ e : Edge, e.side.Within (b.get e : ℝ) (p e.axis)}

theorem get_set (e : Edge) (c : ℚ) (e' : Edge) :
    (b.set e c).get e' = if e' = e then c else b.get e' := by
  cases e <;> cases e' <;> rfl

theorem get_size (axis : Axis) :
    b.size.get axis = b.get (.on axis .max) - b.get (.on axis .min) := by
  cases axis <;> rfl

theorem get_center (axis : Axis) :
    b.center.get axis = (b.get (.on axis .min) + b.get (.on axis .max)) / 2 := by
  have hhalf : (0.5 : ℚ) = 1 / 2 := by norm_num
  unfold center
  rw [Vec3.get_map, hhalf, mul_one_div]
  cases axis <;> rfl

variable {b} {p : Point}

/-- A point of a box is in the box with one edge moved iff it is not beyond the moved edge. -/
theorem mem_points_set (hp : p ∈ b.points) (e : Edge) (c : ℚ) :
    p ∈ (b.set e c).points ↔ e.side.Within (c : ℝ) (p e.axis) := by
  constructor
  · intro h
    have hmoved := h e
    rwa [get_set, if_pos rfl] at hmoved
  · intro h e'
    rw [get_set]
    by_cases he : e' = e
    · rw [if_pos he, he]
      exact h
    · rw [if_neg he]
      exact hp e'

/-- The points of a box are at most half of its length away from its middle, on each axis. -/
theorem mem_points_iff :
    p ∈ b.points ↔ ∀ axis, |p axis - (b.center.get axis : ℝ)| ≤ (b.size.get axis : ℝ) / 2 := by
  refine Edge.forall_iff.trans (forall_congr' fun axis => ?_)
  have hbetween : ((b.get (.on axis .min) : ℝ) ≤ p axis ∧ p axis ≤ (b.get (.on axis .max) : ℝ)) ↔
      |p axis - (b.center.get axis : ℝ)| ≤ (b.size.get axis : ℝ) / 2 := by
    rw [get_center, get_size, abs_le]
    push_cast
    constructor
    · rintro ⟨hlow, hhigh⟩
      constructor <;> linarith
    · rintro ⟨hlow, hhigh⟩
      constructor <;> linarith
  rw [← hbetween]
  cases axis <;> rfl

end BoundingBox

/-! ## §2. Edges. -/

namespace Extents

theorem box_eq_ok {x : Extents ℚ} {b : BoundingBox ℚ} (h : ∀ e, x.get e = .ok (b.get e)) :
    x.box = .ok b := by
  have hx : x = .ofBox b := by
    refine ext_get fun e => ?_
    rw [h e, ofBox, get_ofFn]
  rw [hx]
  rfl

/-- The innermost of two coordinates on a side is the outermost of them on the other. -/
theorem innermost_pair (s : Side) (a c : ℚ) :
    innermost s [.ok a, .ok c] = .ok (outer s.opposite a c) := by
  have hvalues : (([.ok a, .ok c] : List (Reading ℚ)).mapM id : Except (Fault ℚ) (List ℚ))
      = .ok [a, c] := rfl
  rw [innermost_eq, hvalues]
  exact congrArg Except.ok (Scalar.extreme_cons s.opposite a [c])

end Extents

namespace Node

variable {n m : Node ℚ} {b : BoundingBox ℚ}

/-- **A cuboid that fills a box reads as the box.** -/
theorem get_extents_ofBox (b : BoundingBox ℚ) (e : Edge) :
    (ofBox b).extents.get e = .ok (b.get e) := by
  have htwo : (2.0 : ℚ) = 2 := by norm_num
  have hcube : (cube b.size).extents.get e
      = .ok (Primitive.centered e (b.size.get e.axis)) := Extents.get_ofFn _ e
  have hmoved := movedTo_translate (cube b.size) b.center e.axis e.side
  rw [Edge.on_axis_side, hcube] at hmoved
  -- Half of the length is to either side of the middle.
  have hedge : Primitive.centered e (b.size.get e.axis) + b.center.get e.axis
      = b.get (.on e.axis e.side) := by
    unfold Primitive.centered
    rw [b.get_size, b.get_center, htwo]
    cases e.side with
    | min => ring
    | max => ring
  rw [Edge.on_axis_side] at hedge
  exact hmoved.trans (congrArg Except.ok hedge)

/-- A node that is known on some edge is not the overlap of nothing. -/
theorem ne_empty_intersection {e : Edge} {a : ℚ} (hn : n.extents.get e = .ok a) :
    n ≠ .compose {} .intersection [] := by
  rintro rfl
  cases e <;> cases hn

/-- What two nodes have in common ends where the first of them ends. -/
theorem get_extents_intersectWith {e : Edge} {a c : ℚ} (hn : n.extents.get e = .ok a)
    (hm : m.extents.get e = .ok c) :
    (n.intersectWith m).extents.get e = .ok (Extents.outer e.side.opposite a c) := by
  have hoperands : n.operandsFor .intersection ≠ [] :=
    fun hnil => ne_empty_intersection hn (operandsFor_eq_nil_iff.mp hnil)
  unfold intersectWith
  rw [extents_composeWith hoperands, extents_compose]
  show (Extents.intersection [n.extents, m.extents]).get e = _
  rw [Extents.get_intersection, ← Extents.innermost_pair, ← hn, ← hm]
  rfl

/-- A node that is trimmed by its box with one edge moved keeps the other edges. -/
theorem get_extents_trimmed (hn : ∀ e, n.extents.get e = .ok (b.get e)) (e : Edge) (c : ℚ)
    (e' : Edge) :
    (n.intersectWith (ofBox (b.set e c))).extents.get e'
      = .ok (if e' = e then Extents.outer e.side.opposite (b.get e') c else b.get e') := by
  rw [get_extents_intersectWith (hn e') (get_extents_ofBox _ e'), b.get_set]
  by_cases he : e' = e
  · subst he
    rw [if_pos rfl, if_pos rfl]
  · -- Here the cuboid ends where the node does.
    obtain h | h := (Rational.outer_spec e'.side.opposite (b.get e') (b.get e')).1 <;>
      rw [if_neg he, if_neg he, h]

/-! ## §3. Points. -/

/-- The reading takes plain overlaps, cubes around the origin and cubes that are moved for what
they say. -/
structure IsSpatial (M : Node ℚ → Set Point) : Prop where
  overlap : ∀ operands, M (.compose {} .intersection operands) = {p | ∀ n ∈ operands, p ∈ M n}
  cube : ∀ size, M (cube size) = {p | ∀ axis, |p axis| ≤ (size.get axis : ℝ) / 2}
  moved : ∀ size v, M (.apply {} (.translate v) [.cube size]) = (· + v.point) '' M (.cube size)

/-- The points of a tree are such a reading. -/
theorem isSpatial_points (I : Interpretation) : IsSpatial (points I) where
  overlap operands := by
    rw [points_compose, SetOperation.act_intersection]
    simp only [List.forall_mem_map]
  cube _ := rfl
  moved size v := by
    have hop : Operator.translate v ≠ .minkowski := nofun
    rw [points_apply, Operator.points_eq_act I hop, List.map_singleton, joined_cons, joined_nil,
      Set.union_empty]
    rfl

namespace IsSpatial

variable {M : Node ℚ → Set Point}

/-- **A cuboid that fills a box has the points of the box.** -/
theorem ofBox (hM : IsSpatial M) (b : BoundingBox ℚ) : M (.ofBox b) = b.points := by
  have hmoved : M (.ofBox b) = (· + b.center.point) '' M (.cube b.size) := by
    unfold Node.ofBox translate
    by_cases hzero : b.center.isZero = true
    · -- The cube itself is a cube that is moved by nothing.
      have hstays : b.center.point = 0 := by
        funext axis
        show ((b.center.get axis : ℚ) : ℝ) = 0
        rw [Vec3.isZero_iff.mp hzero, Vec3.get_zero, Rat.cast_zero]
      rw [if_pos hzero, hstays]
      simp
    · rw [if_neg hzero]
      exact hM.moved b.size b.center
  ext p
  rw [hmoved, hM.cube, BoundingBox.mem_points_iff]
  constructor
  · rintro ⟨q, hq, rfl⟩ axis
    show |q axis + b.center.get axis - b.center.get axis| ≤ _
    rw [add_sub_cancel_right]
    exact hq axis
  · intro hp
    exact ⟨p - b.center.point, hp, sub_add_cancel p _⟩

/-- The points of two nodes in common. -/
theorem intersectWith (hM : IsSpatial M) (n m : Node ℚ) :
    M (n.intersectWith m) = M n ∩ M m := by
  have hn : M n = {p | ∀ k ∈ n.operandsFor .intersection, p ∈ M k} := by
    rcases n.operandsFor_cases .intersection with hone | hcomposite
    · rw [hone]
      simp
    · exact (congrArg M hcomposite).trans (hM.overlap _)
  unfold Node.intersectWith composeWith
  rw [hM.overlap, hn]
  ext p
  simp [or_imp, forall_and]

/-- A node that is trimmed by its box with one edge moved keeps the points that are not beyond
the edge. -/
theorem trimmed (hM : IsSpatial M) (hbox : M n ⊆ b.points) (e : Edge) (c : ℚ) :
    M (n.intersectWith (.ofBox (b.set e c))) = {p ∈ M n | e.side.Within (c : ℝ) (p e.axis)} := by
  rw [hM.intersectWith, hM.ofBox]
  ext p
  exact and_congr_right fun hp => BoundingBox.mem_points_set (hbox hp) e c

end IsSpatial

/-! ## §4. Divisions. -/

theorem divide_eq (hn : ∀ e, n.extents.get e = .ok (b.get e)) (axis : Axis) (position gap : ℚ) :
    n.divide axis position gap
      = if b.get (.on axis .min) < position ∧ position < b.get (.on axis .max) then
          .ok (n.intersectWith (ofBox (b.set (.on axis .max) (position - gap))),
            n.intersectWith (ofBox (b.set (.on axis .min) (position + gap))))
        else .error (.invalidArgument (.plane axis position (b.get (.on axis .min))
          (b.get (.on axis .max)))) := by
  unfold divide
  rw [Extents.box_eq_ok hn]
  cases axis <;> rfl

/-- **Nodes are cut where it is asked.** A node whose box is known can be cut on an axis just by
the planes that are inside of the box. The lower half then ends on that axis the gap before the
plane, or where the node ends if that comes first, the upper half starts the gap after the plane,
or where the node does, and all their other edges are those of the node. In space, of the points
of a node that has none out of its box, those up to the gap before the plane are in the lower
half, and those from the gap after it are in the upper one. -/
theorem divide_cuts (hn : ∀ e, n.extents.get e = .ok (b.get e)) (axis : Axis) (position gap : ℚ) :
    ((∃ halves, n.divide axis position gap = .ok halves) ↔
      b.get (.on axis .min) < position ∧ position < b.get (.on axis .max)) ∧
    ∀ low high, n.divide axis position gap = .ok (low, high) →
      (∀ e, low.extents.get e = .ok (if e = .on axis .max
        then min (b.get e) (position - gap) else b.get e)) ∧
      (∀ e, high.extents.get e = .ok (if e = .on axis .min
        then max (b.get e) (position + gap) else b.get e)) ∧
      ∀ M : Node ℚ → Set Point, IsSpatial M → M n ⊆ b.points →
        M low = {p ∈ M n | p axis ≤ ((position - gap : ℚ) : ℝ)} ∧
        M high = {p ∈ M n | ((position + gap : ℚ) : ℝ) ≤ p axis} := by
  rw [divide_eq hn]
  by_cases hinside : b.get (.on axis .min) < position ∧ position < b.get (.on axis .max)
  · rw [if_pos hinside]
    refine ⟨iff_of_true ⟨_, rfl⟩ hinside, ?_⟩
    rintro low high h
    cases h
    refine ⟨fun e => ?_, fun e => ?_, fun M hM hbox => ⟨?_, ?_⟩⟩
    · rw [get_extents_trimmed hn, Edge.side_on, ← Rational.lesser_eq_min]
      rfl
    · rw [get_extents_trimmed hn, Edge.side_on, ← Rational.greater_eq_max]
      rfl
    · rw [hM.trimmed hbox, Edge.side_on, Edge.axis_on]
      rfl
    · rw [hM.trimmed hbox, Edge.side_on, Edge.axis_on]
      rfl
  · rw [if_neg hinside]
    exact ⟨iff_of_false nofun hinside, nofun⟩

/-! A ball where it overlaps a block that is off its center, cut near the block's edge. -/

/-- The part of a ball from one to five on X that is no more than three off that axis. -/
def ballInBlock : Node ℚ :=
  .compose {} .intersection
    [.leaf {} (.sphere 10 8), .apply {} (.translate ⟨4, 0, 0⟩) [.leaf {} (.cube ⟨6, 6, 6⟩)]]

/-- The box of it. -/
def ballInBlockBox : BoundingBox ℚ := ⟨⟨1, -3, -3⟩, ⟨5, 3, 3⟩⟩

/-- The lower half, which is all gap, comes out inverted and has no points, the upper one starts
the gap after the plane, and at its right edge the node cannot be cut. -/
theorem divide_cuts_ballInBlock :
    (∀ e, ballInBlock.extents.get e = .ok (ballInBlockBox.get e)) ∧
      (∃ low high, ballInBlock.divide .x 2 (3 / 2) = .ok (low, high) ∧
        low.extents.get .left = .ok 1 ∧ low.extents.get .right = .ok (1 / 2) ∧
        high.extents.get .left = .ok (7 / 2) ∧ high.extents.get .right = .ok 5 ∧
        low.points convexInterpretation
          = {p ∈ ballInBlock.points convexInterpretation | p .x ≤ ((2 - 3 / 2 : ℚ) : ℝ)} ∧
        high.points convexInterpretation
          = {p ∈ ballInBlock.points convexInterpretation | ((2 + 3 / 2 : ℚ) : ℝ) ≤ p .x}) ∧
      ¬ ∃ halves, ballInBlock.divide .x 5 (3 / 2) = .ok halves := by
  have hmeasured : ballInBlock.Everywhere counted IsMeasured := by
    repeat' first
      | exact ⟨trivial, List.cons_ne_nil _ _⟩
      | exact List.cons_ne_nil _ _
      | exact List.forall_mem_nil _
      | refine .intro ?_ ?_
      | refine List.forall_mem_cons.mpr ⟨?_, ?_⟩
    · show (0 : ℚ) ≤ 10
      norm_num
    · intro axis
      cases axis <;> decide +kernel
  have hn (e : Edge) : ballInBlock.extents.get e = .ok (ballInBlockBox.get e) := by
    cases e <;> decide +kernel
  have hbox : ballInBlock.points convexInterpretation ⊆ ballInBlockBox.points :=
    fun p hp e => encloses_extents convexInterpretation hmeasured e _ (hn e) p hp
  obtain ⟨hcan, hhalves⟩ := divide_cuts hn .x 2 (3 / 2)
  obtain ⟨⟨low, high⟩, hdivide⟩ := hcan.mpr ⟨by decide +kernel, by decide +kernel⟩
  obtain ⟨hlow, hhigh, hpoints⟩ := hhalves low high hdivide
  obtain ⟨hbelow, habove⟩ := hpoints _ (isSpatial_points convexInterpretation) hbox
  refine ⟨hn, ⟨low, high, hdivide, hlow .left, ?_, ?_, hhigh .right, hbelow, habove⟩, ?_⟩
  · exact (hlow .right).trans (by decide +kernel)
  · exact (hhigh .left).trans (by decide +kernel)
  · intro h
    have hinside := (divide_cuts hn .x 5 (3 / 2)).1.mp h
    exact absurd hinside.2 (by decide +kernel)

end Node

end SolidTree
