/-
  SolidTree.Proofs.Tree.Moved
  ───────────────────────────
  **MOVED NODES.**

  A translation of a node may end up merged into one below it, handed to the
  operands of a union, or be no node at all, but in each form it adds its
  offset to the readings: known edges of an axis all move by one distance, and
  unknown ones stay unknown, with their faults.

      x.MovedTo y axis d   — on this axis `y` reads what `x` reads, `d` further

  Main result:
    * `movedTo_translate` — a node and the node moved by an offset
-/
import SolidTree.Proofs.Tree.Folding

namespace SolidTree

/-! ## §1. Readings that are moved. -/

namespace Extents

/-- On this axis `y` reads what `x` reads, moved by a distance. -/
def MovedTo (x y : Extents ℚ) (axis : Axis) (distance : ℚ) : Prop :=
  ∀ side, y.get (.on axis side) = (x.get (.on axis side)).map (· + distance)

theorem movedTo_zero {x y : Extents ℚ} {axis : Axis} :
    x.MovedTo y axis 0 ↔ ∀ side, y.get (.on axis side) = x.get (.on axis side) := by
  refine forall_congr' fun side => ?_
  cases x.get (.on axis side) <;> simp [Except.map]

/-- The middle is known iff both edges are, and lies between them. -/
theorem middle_eq_ok {x : Extents ℚ} {axis : Axis} {c : ℚ} :
    x.middle axis = .ok c ↔ ∃ low high, x.get (.on axis .min) = .ok low ∧
      x.get (.on axis .max) = .ok high ∧ (high + low) / 2 = c := by
  have htwo : (2.0 : ℚ) = 2 := by norm_num
  unfold middle
  rw [htwo, Outcome.bind_eq_ok]
  constructor
  · rintro ⟨high, hhigh, h⟩
    obtain ⟨low, hlow, h⟩ := Outcome.bind_eq_ok.mp h
    exact ⟨low, high, hlow, hhigh, Except.ok.inj h⟩
  · rintro ⟨low, high, hlow, hhigh, rfl⟩
    exact ⟨high, hhigh, Outcome.bind_eq_ok.mpr ⟨low, hlow, rfl⟩⟩

/-- The length is known iff both edges are. -/
theorem span_eq_ok {x : Extents ℚ} {axis : Axis} {d : ℚ} :
    x.span axis = .ok d ↔ ∃ low high, x.get (.on axis .min) = .ok low ∧
      x.get (.on axis .max) = .ok high ∧ high - low = d := by
  unfold span
  rw [Outcome.bind_eq_ok]
  constructor
  · rintro ⟨high, hhigh, h⟩
    obtain ⟨low, hlow, h⟩ := Outcome.bind_eq_ok.mp h
    exact ⟨low, high, hlow, hhigh, Except.ok.inj h⟩
  · rintro ⟨low, high, hlow, hhigh, rfl⟩
    exact ⟨high, hhigh, Outcome.bind_eq_ok.mpr ⟨low, hlow, rfl⟩⟩

/-- The middle moves with the edges. -/
theorem MovedTo.middle {x y : Extents ℚ} {axis : Axis} {d c : ℚ} (h : x.MovedTo y axis d)
    (hc : x.middle axis = .ok c) : y.middle axis = .ok (c + d) := by
  obtain ⟨low, high, hlow, hhigh, rfl⟩ := middle_eq_ok.mp hc
  refine middle_eq_ok.mpr ⟨low + d, high + d, ?_, ?_, by ring⟩
  · rw [h .min, hlow]
    rfl
  · rw [h .max, hhigh]
    rfl

end Extents

/-! ## §2. Nodes that are moved. -/

namespace Node

/-- Unless it is folded into the node, an operator reads the node. -/
theorem get_extents_transform {n : Node ℚ} {op : Operator ℚ}
    (hgroup : op = .minkowski → ¬ n.IsGroup) (hrotations : ∀ a b, ¬ n.SumsRotations op a b) :
    (n.transform op).extents.get = op.reading n.extents.get [n.extents] := by
  have hfold : (n.transform op).extents = (Node.apply {} op [n]).extents :=
    extents_transform_eq hgroup hrotations
  rw [hfold, extents_apply, List.map_singleton, Operator.get_extents _ (List.cons_ne_nil _ _),
    Extents.union_singleton]

theorem get_extents_transform_translate (n : Node ℚ) (v : Vec3 ℚ) (e : Edge) :
    (n.transform (.translate v)).extents.get e = (n.extents.get e).map (· + v.get e.axis) := by
  have hget : (n.transform (.translate v)).extents.get
      = (Operator.translate v).reading n.extents.get [n.extents] :=
    get_extents_transform nofun fun _ _ h => nomatch h.1
  rw [hget]
  rfl

/-- **A moved node reads what the node reads, moved by the offset.** -/
theorem movedTo_translate (n : Node ℚ) (v : Vec3 ℚ) (axis : Axis) :
    n.extents.MovedTo (n.translate v).extents axis (v.get axis) := by
  unfold translate
  by_cases hzero : v.isZero = true
  · -- The node itself is a node moved by nothing.
    rw [if_pos hzero, Vec3.isZero_iff.mp hzero, Vec3.get_zero, Extents.movedTo_zero]
    exact fun _ => rfl
  · rw [if_neg hzero]
    intro side
    rw [get_extents_transform_translate, Edge.axis_on]

end Node

end SolidTree
