/-
  SolidTree.Proofs.Box.Lattice
  ────────────────────────────
  **TWO WAYS TO PUT BOXES TOGETHER.**

  Boxes are put together edge by edge twice: `BoundingBox.union` and
  `BoundingBox.intersection` compare two coordinates and keep one, while the
  readings of composites filter out what is no number, start from the first
  element, from an infinity or from the origin, and compare with a function
  that prefers numbers.  On coordinates that are numbers both are the same
  fold on every edge:

      union          — the outer one of two, on the side of the edge
      intersection   — the outer one of two, on the other side

  Zero has two signs, and which of them is kept depends on the order.  Apart
  from that nothing does: as extended reals the coordinates are those of a
  lattice of boxes.

  Main results:
    * `union_ofBox`, `intersection_ofBox` — readings of boxes are folds of boxes
    * `contains_intersection` — a point is in the overlap if it is in both
    * `boxes_put_together` — both algebras agree, and they are a lattice
-/
import SolidTree.Proofs.Box.Growing
import SolidTree.Proofs.Composition.Nesting
import SolidTree.Proofs.Double.Value

namespace SolidTree

/-! ## §1. Boxes edge by edge. -/

namespace BoundingBox

variable {α : Type} [Scalar α]

/-- Every coordinate is a number. -/
def IsNumeric (b : BoundingBox α) : Prop := ∀ e, Scalar.isNumber (b.get e) = true

/-- All coordinates are equal, as they are compared. -/
def SameEdges (b c : BoundingBox α) : Prop := ∀ e, (b.get e == c.get e) = true

/-- A union keeps the outer coordinate on every edge. -/
theorem get_union_of_isNumeric (b : BoundingBox α) {c : BoundingBox α} (hc : c.IsNumeric)
    (e : Edge) : (b.union c).get e = Extents.outer e.side (b.get e) (c.get e) := by
  have he := hc e
  cases e
  case left | back | bottom => exact lowerOf_eq he
  case right | front | top => exact upperOf_eq he

/-- An intersection keeps the coordinate that is the outer one on the other side. -/
theorem get_intersection_of_isNumeric (b : BoundingBox α) {c : BoundingBox α} (hc : c.IsNumeric)
    (e : Edge) :
    (b.intersection c).get e = Extents.outer e.side.opposite (b.get e) (c.get e) := by
  have he := hc e
  cases e
  case left | back | bottom => exact upperOf_eq he
  case right | front | top => exact lowerOf_eq he

/-- A fold of boxes is a fold of coordinates on every edge. -/
theorem get_foldl {step : BoundingBox α → BoundingBox α → BoundingBox α} {side : Edge → Side}
    (hstep : ∀ (b : BoundingBox α) {c}, c.IsNumeric → ∀ e,
      (step b c).get e = Extents.outer (side e) (b.get e) (c.get e))
    (first : BoundingBox α) {rest : List (BoundingBox α)} (hrest : ∀ b ∈ rest, b.IsNumeric)
    (e : Edge) :
    (rest.foldl step first).get e
      = (rest.map (·.get e)).foldl (Extents.outer (side e)) (first.get e) := by
  induction rest generalizing first with
  | nil => rfl
  | cons b rest ih =>
    obtain ⟨hb, hrest⟩ := List.forall_mem_cons.mp hrest
    rw [List.foldl_cons, ih (step first b) hrest, hstep first hb, List.map_cons, List.foldl_cons]

end BoundingBox

/-! ## §2. Readings of boxes. -/

namespace Extents

variable {α : Type} [Scalar α]

omit [Scalar α] in
theorem get_ofBox (b : BoundingBox α) (e : Edge) : (ofBox b).get e = .ok (b.get e) := get_ofFn _ e

omit [Scalar α] in
theorem mapM_get_ofBox (boxes : List (BoundingBox α)) (e : Edge) :
    (((boxes.map ofBox).map (·.get e)).mapM id : Except (Fault α) (List α))
      = .ok (boxes.map (·.get e)) := by
  refine Outcome.mapM_id_eq_ok.mpr ?_
  rw [List.map_map, List.map_map]
  exact List.map_congr_left fun b _ => get_ofBox b e

/-- **The union of the readings of boxes is the reading of their union.** -/
theorem union_ofBox (first : BoundingBox α) {rest : List (BoundingBox α)}
    (hrest : ∀ b ∈ rest, b.IsNumeric) :
    union ((first :: rest).map ofBox) = ofBox (rest.foldl .union first) := by
  refine ext_get fun e => ?_
  rw [get_union, outermost_eq, mapM_get_ofBox]
  show Except.ok ((rest.map (·.get e)).foldl (outer e.side) (first.get e)) = _
  rw [← BoundingBox.get_foldl BoundingBox.get_union_of_isNumeric first hrest e,
    get_ofBox]

/-- **The intersection of the readings of boxes is the reading of their intersection.** -/
theorem intersection_ofBox {first : BoundingBox α} {rest : List (BoundingBox α)}
    (h : ∀ b ∈ first :: rest, b.IsNumeric) :
    intersection ((first :: rest).map ofBox) = ofBox (rest.foldl .intersection first) := by
  refine ext_get fun e => ?_
  have hnumbers : ((first :: rest).map (·.get e)).filter Scalar.isNumber
      = (first :: rest).map (·.get e) :=
    List.filter_eq_self.mpr (List.forall_mem_map.mpr fun b hb => h b hb e)
  rw [get_intersection, innermost_eq, mapM_get_ofBox]
  show Except.ok (Primitive.extreme e.side.opposite ((first :: rest).map (·.get e))) = _
  rw [Scalar.extreme_eq, hnumbers]
  show Except.ok ((rest.map (·.get e)).foldl (outer e.side.opposite) (first.get e)) = _
  rw [← BoundingBox.get_foldl BoundingBox.get_intersection_of_isNumeric first
    (List.forall_mem_cons.mp h).2 e, get_ofBox]

end Extents

/-! ## §3. Boxes of extended reals. -/

open scoped ExtendedReals

theorem Side.within_opposite {β : Type*} [LE β] {s : Side} {v x : β} :
    s.opposite.Within v x ↔ s.Within x v := by
  cases s <;> exact Iff.rfl

/-- The inner one of two coordinates bounds what both of them bound. -/
theorem Side.outer_opposite_within {s : Side} {a b w : EReal} :
    s.Within (Extents.outer s.opposite a b) w ↔ s.Within a w ∧ s.Within b w := by
  rw [← within_opposite, within_outer, within_opposite, within_opposite]

namespace Binary64

/-- The outer one of two numbers stands for the outer one of what they stand for. -/
theorem extended_outer (s : Side) {x y : Float} (hx : Scalar.isNumber x = true)
    (hy : Scalar.isNumber y = true) :
    extended (Extents.outer s x y) = Extents.outer s (extended x) (extended y) := by
  have hnumber (a : EReal) : Scalar.isNumber a = true := Scalar.Ordered.isNumber a
  cases s with
  | min =>
    show extended (Scalar.lesser x y) = Scalar.lesser (extended x) (extended y)
    unfold Scalar.lesser
    rw [if_pos hy, if_pos (hnumber _), apply_ite extended]
    simp only [le_iff hx hy]
  | max =>
    show extended (Scalar.greater x y) = Scalar.greater (extended x) (extended y)
    unfold Scalar.greater
    rw [if_pos hy, if_pos (hnumber _), apply_ite extended]
    simp only [le_iff hy hx]

theorem extended_foldl (s : Side) {x : Float} {rest : List Float}
    (h : ∀ y ∈ x :: rest, Scalar.isNumber y = true) :
    extended (rest.foldl (Extents.outer s) x)
      = (rest.map extended).foldl (Extents.outer s) (extended x) := by
  induction rest generalizing x with
  | nil => rfl
  | cons y rest ih =>
    obtain ⟨hx, hy, hrest⟩ : _ ∧ _ ∧ _ := by simpa only [List.forall_mem_cons] using h
    rw [List.foldl_cons, ih (List.forall_mem_cons.mpr ⟨Scalar.isNumber_outer s hx hy, hrest⟩),
      extended_outer s hx hy, List.map_cons, List.foldl_cons]

/-- The outermost of some numbers does not depend on their order. -/
theorem foldl_outer_perm (s : Side) {x y : Float} {xs ys : List Float}
    (hperm : (x :: xs).Perm (y :: ys)) (h : ∀ z ∈ y :: ys, Scalar.isNumber z = true) :
    (xs.foldl (Extents.outer s) x == ys.foldl (Extents.outer s) y) = true := by
  have hx : ∀ z ∈ x :: xs, Scalar.isNumber z = true := fun z hz => h z (hperm.mem_iff.mp hz)
  have hnumber {z : Float} {zs : List Float} (hz : ∀ w ∈ z :: zs, Scalar.isNumber w = true) :=
    Scalar.isNumber_foldl s (List.forall_mem_cons.mp hz).1 (List.forall_mem_cons.mp hz).2
  rw [beq_iff (hnumber hx) (hnumber h), extended_foldl s hx, extended_foldl s h]
  -- Each of the two is among the numbers, so neither is beyond the other.
  have hmem {z : EReal} : z ∈ extended x :: xs.map extended ↔ z ∈ extended y :: ys.map extended :=
    (hperm.map extended).mem_iff
  obtain ⟨hone, hwithin⟩ := Scalar.foldl_outer s (extended x) (xs.map extended)
  obtain ⟨hother, hbeyond⟩ := Scalar.foldl_outer s (extended y) (ys.map extended)
  exact (hwithin _ (hmem.mpr hother)).antisymm (hbeyond _ (hmem.mp hone))

end Binary64

namespace BoundingBox

/-- The box of what the coordinates stand for. -/
noncomputable def extended (b : BoundingBox Float) : BoundingBox EReal :=
  .ofFn fun e => Binary64.extended (b.get e)

theorem get_extended (b : BoundingBox Float) (e : Edge) :
    b.extended.get e = Binary64.extended (b.get e) := get_ofFn _ e

/-- Folds of boxes in any order have the same coordinates. -/
theorem foldl_perm {step : BoundingBox Float → BoundingBox Float → BoundingBox Float}
    {side : Edge → Side}
    (hstep : ∀ (b : BoundingBox Float) {c}, c.IsNumeric → ∀ e,
      (step b c).get e = Extents.outer (side e) (b.get e) (c.get e))
    {first first' : BoundingBox Float} {rest rest' : List (BoundingBox Float)}
    (h : ∀ b ∈ first :: rest, b.IsNumeric) (hperm : (first' :: rest').Perm (first :: rest)) :
    (rest'.foldl step first').SameEdges (rest.foldl step first) := by
  intro e
  have h' : ∀ b ∈ first' :: rest', b.IsNumeric := fun b hb => h b (hperm.mem_iff.mp hb)
  rw [get_foldl hstep first (List.forall_mem_cons.mp h).2,
    get_foldl hstep first' (List.forall_mem_cons.mp h').2]
  have hedges : ((first' :: rest').map (·.get e)).Perm ((first :: rest).map (·.get e)) :=
    hperm.map _
  have hnumbers : ∀ a ∈ (first :: rest).map (·.get e), Scalar.isNumber a = true :=
    List.forall_mem_map.mpr fun b hb => h b hb e
  exact Binary64.foldl_outer_perm (side e) hedges hnumbers

/-! ## §4. The lattice. -/

variable {b c : BoundingBox Float}

/-- **A point is in the overlap of two boxes just if it is in both.** -/
theorem contains_intersection (hb : b.IsNumeric) (hc : c.IsNumeric) (p : Vec3 EReal) :
    (b.intersection c).extended.Contains p ↔ b.extended.Contains p ∧ c.extended.Contains p := by
  simp only [contains_iff, get_extended, get_intersection_of_isNumeric b hc,
    Binary64.extended_outer _ (hb _) (hc _), Side.outer_opposite_within]
  exact forall_and

/-- A box is upright if it is not empty. -/
theorem isUpright_extended (hb : b.IsNumeric) (h : b.isEmpty = false) : b.extended.IsUpright := by
  intro axis
  have haxis : ¬ b.max.get axis < b.min.get axis := by
    have hall := List.any_eq_false.mp h axis (by cases axis <;> decide)
    exact fun hlt => hall (decide_eq_true hlt)
  have hmax : Scalar.isNumber (b.max.get axis) = true := by
    have hedge := hb (.on axis .max)
    cases axis <;> exact hedge
  have hmin : Scalar.isNumber (b.min.get axis) = true := by
    have hedge := hb (.on axis .min)
    cases axis <;> exact hedge
  rw [Binary64.lt_iff hmax hmin] at haxis
  cases axis <;> exact le_of_not_gt haxis

/-- **The union of two boxes is the least one around both.** -/
theorem union_isLeastAround (hb : b.IsNumeric) (hc : c.IsNumeric) (hb' : b.isEmpty = false)
    (hc' : c.isEmpty = false) :
    (b.union c).extended.IsLeastAround {p | b.extended.Contains p ∨ c.extended.Contains p} := by
  have htight : (b.union c).extended.IsTight
      ({p | b.extended.Contains p} ∪ {p | c.extended.Contains p}) := by
    intro e w
    rw [get_extended, get_union_of_isNumeric b hc, Binary64.extended_outer _ (hb e) (hc e),
      ← get_extended, ← get_extended, ← get_union]
    exact (isTight_contains (isUpright_extended hb hb')).union
      (isTight_contains (isUpright_extended hc hc')) e w
  exact htight.isLeastAround

/-- **Both ways to put boxes together agree, and they are the operations of a lattice.** For
boxes whose coordinates are numbers, at least one of them: the union of their readings, and the
readings of an intersection of operands that read as these boxes, are those of the boxes put
together one after the other, in any order the same.  Of any two boxes, the points in the
intersection are those in both, and the union is the least box around both unless one of them
is empty. -/
theorem boxes_put_together (first : BoundingBox Float) (rest : List (BoundingBox Float))
    (h : ∀ b ∈ first :: rest, b.IsNumeric) :
    Extents.union ((first :: rest).map .ofBox) = .ofBox (rest.foldl union first) ∧
      (∀ (tag : Tag) (operands : List (Node Float)),
        operands.map Node.extents = (first :: rest).map .ofBox →
        (Node.compose tag .intersection operands).extents
          = .ofBox (rest.foldl intersection first)) ∧
      (∀ first' rest', (first' :: rest').Perm (first :: rest) →
        (rest'.foldl union first').SameEdges (rest.foldl union first) ∧
          (rest'.foldl intersection first').SameEdges (rest.foldl intersection first)) ∧
      ∀ b c : BoundingBox Float, b.IsNumeric → c.IsNumeric →
        (∀ p, (b.intersection c).extended.Contains p
          ↔ b.extended.Contains p ∧ c.extended.Contains p) ∧
        (b.isEmpty = false → c.isEmpty = false →
          (b.union c).extended.IsLeastAround
            {p | b.extended.Contains p ∨ c.extended.Contains p}) := by
  refine ⟨Extents.union_ofBox first (List.forall_mem_cons.mp h).2, ?_, ?_, ?_⟩
  · intro tag operands hoperands
    rw [Node.extents_compose, hoperands]
    exact Extents.intersection_ofBox h
  · intro first' rest' hperm
    exact ⟨foldl_perm get_union_of_isNumeric h hperm,
      foldl_perm get_intersection_of_isNumeric h hperm⟩
  · intro b c hb hc
    exact ⟨contains_intersection hb hc, union_isLeastAround hb hc⟩

/-! A cube, and a plate that has no ends along X. -/

/-- The box of the cube. -/
def block : BoundingBox Float := ⟨⟨-1, -1, -1⟩, ⟨1, 1, 1⟩⟩

/-- The box of the plate. -/
def strip : BoundingBox Float := ⟨⟨-Binary64.infinity, -2, -0.5⟩, ⟨Binary64.infinity, 2, 0.5⟩⟩

theorem isNumeric_block : block.IsNumeric := by
  intro e
  cases e <;> decide +kernel

theorem isNumeric_strip : strip.IsNumeric := by
  intro e
  cases e <;> decide +kernel

theorem extents_cubes :
    [Node.cube ⟨2, 2, 2⟩, Node.cube ⟨Binary64.infinity, 4, 1⟩].map Node.extents
      = [block, strip].map .ofBox := by
  have hblock : (Node.cube ⟨2, 2, 2⟩ : Node Float).extents = .ofBox block := by
    refine Extents.ext_get fun e => ?_
    cases e <;> exact congrArg Except.ok (by decide +kernel)
  have hstrip : (Node.cube ⟨Binary64.infinity, 4, 1⟩ : Node Float).extents = .ofBox strip := by
    refine Extents.ext_get fun e => ?_
    cases e <;> exact congrArg Except.ok (by decide +kernel)
  rw [List.map_cons, List.map_singleton, hblock, hstrip]
  rfl

/-- The cube and the plate together: in one box, in one intersection, and in the other order. -/
theorem boxes_put_together_strip :
    (∀ b ∈ [block, strip], b.IsNumeric) ∧ block.isEmpty = false ∧ strip.isEmpty = false ∧
      Extents.union ([block, strip].map .ofBox) = .ofBox (block.union strip) ∧
      (Node.compose {} .intersection
        [.cube ⟨2, 2, 2⟩, .cube ⟨Binary64.infinity, 4, 1⟩]).extents
          = .ofBox (block.intersection strip) ∧
      (strip.union block).SameEdges (block.union strip) ∧
      (block.union strip).extended.IsLeastAround
        {p | block.extended.Contains p ∨ strip.extended.Contains p} := by
  have hnumeric : ∀ b ∈ [block, strip], b.IsNumeric :=
    List.forall_mem_cons.mpr ⟨isNumeric_block, List.forall_mem_singleton.mpr isNumeric_strip⟩
  have hblock : block.isEmpty = false := by decide +kernel
  have hstrip : strip.isEmpty = false := by decide +kernel
  obtain ⟨hunion, hintersection, hperm, hlattice⟩ := boxes_put_together block [strip] hnumeric
  exact ⟨hnumeric, hblock, hstrip, hunion, hintersection {} _ extents_cubes,
    (hperm strip [block] (.swap block strip [])).1,
    (hlattice block strip isNumeric_block isNumeric_strip).2 hblock hstrip⟩

end BoundingBox

end SolidTree
