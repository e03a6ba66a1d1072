/-
  SolidTree.Proofs.Placement.Reflection
  ─────────────────────────────────────
  **MIRROR IMAGES IN A PLANE.**

  A mirror image in a plane off the origin is made in three steps: the plane
  is moved to the origin, the node is mirrored there, and the plane is moved
  back.  The moves may be merged with translations of the node, or be no
  nodes at all, but all that can be read of the image are the readings of the
  node, reflected:

      x.reflected axis c   — on this axis the two edges change places, and a
                             coordinate `a` becomes `2 * c - a`
      x.Takes axis r       — both edges on the axis are known, and `r` is what
                             is between them

  A node and its mirror image together are as good as their mirror image.

  Main results:
    * `extents_mirrorOn`   — the readings of a mirror image
    * `takes_symmetryOn`   — what a node takes together with its mirror image
    * `mirrorOn_reflects`  — both, and that mirroring twice changes nothing
-/
import Mathlib.Order.Bounds.Defs
import Mathlib.Order.Interval.Set.Basic
import SolidTree.Proofs.Exact.Outermost
import SolidTree.Proofs.Tree.Moved
import SolidTree.Tree.Composition

namespace SolidTree

/-! ## §1. Reflected readings. -/

namespace Extents

/-- The readings of a mirror image in the plane through `center` that is normal to an axis. -/
def reflected (x : Extents ℚ) (axis : Axis) (center : ℚ) : Extents ℚ :=
  ofFn fun e => if e.axis = axis then (x.get e.opposite).map (2 * center - ·) else x.get e

theorem get_reflected (x : Extents ℚ) (axis : Axis) (center : ℚ) (e : Edge) :
    (x.reflected axis center).get e
      = if e.axis = axis then (x.get e.opposite).map (2 * center - ·) else x.get e :=
  get_ofFn _ e

/-- **A reflection undoes itself.** -/
theorem reflected_reflected (x : Extents ℚ) (axis : Axis) (center : ℚ) :
    (x.reflected axis center).reflected axis center = x := by
  refine ext_get fun e => ?_
  rw [get_reflected, get_reflected, get_reflected]
  have hopposite : e.opposite.axis = e.axis := Edge.axis_on _ _
  rw [hopposite, Edge.opposite_opposite]
  by_cases haxis : e.axis = axis
  · rw [if_pos haxis, if_pos haxis]
    cases x.get e with
    | error fault => rfl
    | ok a =>
      show Except.ok (2 * center - (2 * center - a)) = Except.ok a
      rw [sub_sub_cancel]
  · rw [if_neg haxis, if_neg haxis]

end Extents

/-! ## §2. Mirror images. -/

namespace Operator

/-- In a plane that is normal to an axis, the two edges of that axis change places and no
other ones do. -/
theorem mirroredReading_normal (axis : Axis) (child : Edge → Reading ℚ) (e : Edge) :
    mirroredReading ((0 : Vec3 ℚ).set axis 1.0) child e
      = if e.axis = axis then (child e.opposite).map (-·) else child e := by
  have hone : ¬ 1 < (Axis.all.filter fun a => ((0 : Vec3 ℚ).set axis 1.0).get a != 0).length := by
    cases axis <;> decide +kernel
  have hflip : (((0 : Vec3 ℚ).set axis 1.0).get e.axis != 0) = decide (e.axis = axis) := by
    cases axis <;> cases e <;> decide +kernel
  unfold mirroredReading
  rw [if_neg hone, hflip]
  by_cases haxis : e.axis = axis
  · rw [if_pos haxis]
    simp only [haxis, decide_true]
    rfl
  · rw [if_neg haxis]
    simp only [haxis, decide_false]
    rfl

end Operator

namespace Node

/-- A move along one axis adds to the edges of that axis. -/
theorem get_extents_translateOn (n : Node ℚ) (axis : Axis) (d : ℚ) (e : Edge) :
    (n.translateOn axis d).extents.get e
      = (n.extents.get e).map (· + if e.axis = axis then d else 0) := by
  have hoffset : ((0 : Vec3 ℚ).set axis d).get e.axis = if e.axis = axis then d else 0 := by
    cases axis <;> cases e <;> rfl
  have hmoved := movedTo_translate n ((0 : Vec3 ℚ).set axis d) e.axis e.side
  rwa [Edge.on_axis_side, hoffset] at hmoved

/-- **The readings of a mirror image are those of the node, reflected**, with their faults. -/
theorem extents_mirrorOn (n : Node ℚ) (axis : Axis) (center : ℚ) :
    (n.mirrorOn axis center).extents = n.extents.reflected axis center := by
  have hmirror (m : Node ℚ) : (m.mirror ((0 : Vec3 ℚ).set axis 1.0)).extents.get
      = Operator.mirroredReading ((0 : Vec3 ℚ).set axis 1.0) m.extents.get :=
    get_extents_transform nofun fun _ _ h => nomatch h.1
  refine Extents.ext_get fun e => ?_
  unfold mirrorOn
  rw [get_extents_translateOn, hmirror, Operator.mirroredReading_normal,
    Extents.get_reflected]
  by_cases haxis : e.axis = axis
  · -- To the origin, to the other side, and back.
    have hopposite : e.opposite.axis = axis := (Edge.axis_on _ _).trans haxis
    rw [if_pos haxis, if_pos haxis, if_pos haxis, get_extents_translateOn, if_pos hopposite]
    cases n.extents.get e.opposite with
    | error fault => rfl
    | ok a =>
      show Except.ok (-(a + -center) + center) = Except.ok (2 * center - a)
      congr 1
      ring
  · rw [if_neg haxis, if_neg haxis, if_neg haxis, get_extents_translateOn, if_neg haxis]
    cases n.extents.get e with
    | error fault => rfl
    | ok a =>
      show Except.ok (a + 0 + 0) = Except.ok a
      rw [add_zero, add_zero]

end Node

/-! ## §3. What is taken up of an axis. -/

/-- What an element takes up of an axis, from its low end to its high end. -/
structure Reach where
  low : ℚ
  high : ℚ

namespace Reach

/-- A reach is in another one if neither of its ends is beyond that of the other. -/
instance : LE Reach := ⟨fun r s => s.low ≤ r.low ∧ r.high ≤ s.high⟩

/-- Unless it is inverted, a reach is in another one just if its points are. -/
theorem le_iff_subset {r s : Reach} (h : r.low ≤ r.high) :
    r ≤ s ↔ Set.Icc r.low r.high ⊆ Set.Icc s.low s.high :=
  (Set.Icc_subset_Icc_iff h).symm

/-- The mirror image in a point. -/
def reflected (r : Reach) (center : ℚ) : Reach := ⟨2 * center - r.high, 2 * center - r.low⟩

/-- Two reaches together. -/
def union (r s : Reach) : Reach := ⟨min r.low s.low, max r.high s.high⟩

/-- Two reaches together are the least one that both are in. -/
theorem isLeast_union (r s : Reach) : IsLeast {t | r ≤ t ∧ s ≤ t} (r.union s) := by
  constructor
  · exact ⟨⟨min_le_left _ _, le_max_left _ _⟩, ⟨min_le_right _ _, le_max_right _ _⟩⟩
  · rintro t ⟨⟨hlow, hhigh⟩, ⟨hlow', hhigh'⟩⟩
    exact ⟨le_min hlow hlow', max_le hhigh hhigh'⟩

/-- A reach together with its mirror image is its own mirror image. -/
theorem reflected_union (r : Reach) (center : ℚ) :
    ((r.reflected center).union r).reflected center = (r.reflected center).union r := by
  -- Each end goes to the other side, where it is the opposite end of the same two reaches.
  have hlow : 2 * center - max (2 * center - r.low) r.high = min (2 * center - r.high) r.low := by
    rw [← min_sub_sub_left, sub_sub_cancel, min_comm]
  have hhigh : 2 * center - min (2 * center - r.high) r.low = max (2 * center - r.low) r.high := by
    rw [← max_sub_sub_left, sub_sub_cancel, max_comm]
  exact congrArg₂ mk hlow hhigh

end Reach

namespace Extents

/-- Both edges on the axis are known, and the reach is what is between them. -/
def Takes (x : Extents ℚ) (axis : Axis) (r : Reach) : Prop :=
  x.get (.on axis .min) = .ok r.low ∧ x.get (.on axis .max) = .ok r.high

theorem Takes.reflected {x : Extents ℚ} {axis : Axis} {r : Reach} (h : x.Takes axis r)
    (center : ℚ) : (x.reflected axis center).Takes axis (r.reflected center) := by
  unfold Takes
  rw [get_reflected, get_reflected, Edge.axis_on, Edge.axis_on, if_pos rfl, if_pos rfl,
    Edge.opposite_on, Edge.opposite_on]
  show (x.get (.on axis .max)).map _ = _ ∧ (x.get (.on axis .min)).map _ = _
  rw [h.1, h.2]
  exact ⟨rfl, rfl⟩

theorem Takes.union {x y : Extents ℚ} {axis : Axis} {r s : Reach} (h : x.Takes axis r)
    (h' : y.Takes axis s) : (Extents.union [x, y]).Takes axis (r.union s) := by
  unfold Takes
  rw [get_union, get_union, List.map_cons, List.map_cons, List.map_nil, List.map_cons,
    List.map_cons, List.map_nil, h.1, h'.1, h.2, h'.2, Edge.side_on, Edge.side_on]
  constructor
  · show Except.ok (Scalar.lesser r.low s.low) = Except.ok (min r.low s.low)
    rw [Rational.lesser_eq_min]
  · show Except.ok (Scalar.greater r.high s.high) = Except.ok (max r.high s.high)
    rw [Rational.greater_eq_max]

end Extents

/-! ## §4. Nodes together with their mirror images. -/

namespace Node

/-- What is put under an operator is an operator over something. -/
theorem exists_transform_eq_apply {α : Type} [Scalar α] (n : Node α) (op : Operator α) :
    ∃ outer children, n.transform op = .apply {} outer children := by
  rcases transform_cases n op with h | ⟨_, _, _, _, _, _, _, h⟩ | ⟨_, _, _, _, _, h⟩
  · exact ⟨_, _, h⟩
  · exact ⟨_, _, h⟩
  · exact ⟨_, _, h⟩

/-- A mirror image is never spliced. -/
theorem operandsFor_mirrorOn (n : Node ℚ) (axis : Axis) (center : ℚ) (op : SetOperation) :
    (n.mirrorOn axis center).operandsFor op = [n.mirrorOn axis center] := by
  unfold mirrorOn
  generalize n.translateOn axis (-center) = m
  obtain ⟨outer, children, hmirror⟩ :=
    exists_transform_eq_apply m (.mirror ((0 : Vec3 ℚ).set axis 1.0))
  unfold mirror translateOn translate
  rw [hmirror]
  -- For a plane through the origin the way back is no node, else it is an operator again.
  by_cases hzero : ((0 : Vec3 ℚ).set axis center).isZero = true
  · rw [if_pos hzero]
    rfl
  · rw [if_neg hzero]
    obtain ⟨outer', children', hback⟩ := exists_transform_eq_apply (.apply {} outer children)
      (.translate ((0 : Vec3 ℚ).set axis center))
    rw [hback]
    rfl

theorem extents_symmetryOn (n : Node ℚ) (axis : Axis) (center : ℚ) :
    (n.symmetryOn axis center).extents
      = .union [n.extents.reflected axis center, n.extents] := by
  unfold symmetryOn unionWith composeWith
  rw [operandsFor_mirrorOn, extents_compose, ← extents_mirrorOn]
  rfl

/-- **A node and its mirror image take the least reach around both.** -/
theorem takes_symmetryOn {n : Node ℚ} {axis : Axis} {r : Reach} (h : n.extents.Takes axis r)
    (center : ℚ) :
    (n.symmetryOn axis center).extents.Takes axis ((r.reflected center).union r) := by
  rw [extents_symmetryOn]
  exact (h.reflected center).union h

/-- **Mirror images are reflections.** On each edge of the axis the mirror image in a plane reads
what the node reads on the opposite edge, at the same distance on the other side of the plane, and
has its faults; it reads what the node reads on the other axes; and the mirror image of the mirror
image reads what the node does. A node of which both edges on the axis are known takes, together
with its mirror image, a reach that is its own mirror image and the least one around both. -/
theorem mirrorOn_reflects (n : Node ℚ) (axis : Axis) (center : ℚ) :
    (∀ side, (n.mirrorOn axis center).extents.get (.on axis side)
        = (n.extents.get (.on axis side.opposite)).map (2 * center - ·)) ∧
      (∀ e : Edge, e.axis ≠ axis →
        (n.mirrorOn axis center).extents.get e = n.extents.get e) ∧
      ((n.mirrorOn axis center).mirrorOn axis center).extents = n.extents ∧
      ∀ r, n.extents.Takes axis r →
        (n.mirrorOn axis center).extents.Takes axis (r.reflected center) ∧
          ∃ s, (n.symmetryOn axis center).extents.Takes axis s ∧ s.reflected center = s ∧
            IsLeast {t | r.reflected center ≤ t ∧ r ≤ t} s := by
  refine ⟨fun side => ?_, fun e haxis => ?_, ?_, fun r hr => ⟨?_, ?_⟩⟩
  · rw [extents_mirrorOn, Extents.get_reflected, Edge.axis_on, if_pos rfl, Edge.opposite_on]
  · rw [extents_mirrorOn, Extents.get_reflected, if_neg haxis]
  · rw [extents_mirrorOn, extents_mirrorOn, Extents.reflected_reflected]
  · rw [extents_mirrorOn]
    exact hr.reflected center
  · exact ⟨_, takes_symmetryOn hr center, r.reflected_union center, Reach.isLeast_union _ _⟩

/-! A lettered board, lifted up. How far the letters go to the right is not known. -/

/-- A word on a board, at height three. -/
def liftedBoard : Node ℚ :=
  .apply {} (.translate ⟨0, 0, 3⟩)
    [.leaf {} (.text { text := "on", size := 10 }), .leaf {} (.cube ⟨8, 4, 2⟩)]

/-- The board and its image in the ceiling at height five take what is between two and eight. -/
theorem mirrorOn_reflects_liftedBoard :
    liftedBoard.extents.Takes .z ⟨2, 4⟩ ∧
      (liftedBoard.mirrorOn .z 5).extents.Takes .z ⟨6, 8⟩ ∧
      (∀ v, (liftedBoard.mirrorOn .z 5).extents.get .right ≠ .ok v) ∧
      ∃ s, (liftedBoard.symmetryOn .z 5).extents.Takes .z s ∧ s.reflected 5 = s ∧
        IsLeast {t | ⟨6, 8⟩ ≤ t ∧ ⟨2, 4⟩ ≤ t} s := by
  have htakes : liftedBoard.extents.Takes .z ⟨2, 4⟩ := by
    constructor <;> decide +kernel
  have himage : (⟨2, 4⟩ : Reach).reflected 5 = ⟨6, 8⟩ := by
    show (⟨2 * 5 - 4, 2 * 5 - 2⟩ : Reach) = ⟨6, 8⟩
    norm_num
  obtain ⟨-, hother, -, hreach⟩ := mirrorOn_reflects liftedBoard .z 5
  obtain ⟨hmirrored, hsymmetric⟩ := hreach ⟨2, 4⟩ htakes
  rw [himage] at hmirrored hsymmetric
  refine ⟨htakes, hmirrored, fun v hv => ?_, hsymmetric⟩
  rw [hother .right (by decide)] at hv
  have hunknown : ∀ v, liftedBoard.extents.get .right ≠ .ok v := by
    intro v hv
    cases hv
  exact hunknown v hv

end Node

end SolidTree
