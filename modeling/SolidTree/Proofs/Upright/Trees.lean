/-
  SolidTree.Proofs.Upright.Trees
  ──────────────────────────────
  **BOXES ARE NEVER INVERTED.**

  Leaves without negative sizes are upright: they are centered, they lie
  between the outermost of some points, or only edges at the origin are
  known of them.  Every way of making a tree from upright ones gives an
  upright one, but for two: an extrusion that goes down, and an intersection,
  of which the overlap may be empty.

      IsValid          — a node that does neither, with sizes of zero or more

  Main result:
    * `extents_upright` — on every axis of which both sides are known, the
      low one is not above the high one
-/
import SolidTree.Proofs.Tree.Everywhere
import SolidTree.Proofs.Upright.Operators

namespace SolidTree

open Outcome Scalar

variable {α : Type} [Scalar α]

/-! ## §1. Leaves. -/

namespace Primitive

/-- No length that the shape is given is negative. -/
def HasSizes : Primitive α → Prop
  | .cube size => ∀ axis, 0 ≤ size.get axis
  | .cylinder height diameter topDiameter _ =>
    0 ≤ height ∧ 0 ≤ diameter ∧ ∀ top, topDiameter = some top → 0 ≤ top
  | .sphere diameter _ | .circle diameter _ => 0 ≤ diameter
  | .square width depth => 0 ≤ width ∧ 0 ≤ depth
  | .text _ | .polygon .. | .polyhedron .. | .imported .. => True

/-- Only edges at the origin are known of a text. -/
theorem text_reading_eq_ok {t : TextShape α} {e : Edge} {v : α} (h : t.reading e = .ok v) :
    v = 0 := by
  unfold TextShape.reading at h
  split at h
  next => exact (Except.ok.inj h).symm
  next => cases h

variable [Exact α]

theorem centered_le {length : α} (h : 0 ≤ length) (axis : Axis) :
    centered (.on axis .min) length ≤ centered (.on axis .max) length := by
  have hlength := Exact.le_iff.mp h
  rw [Exact.value_zero] at hlength
  unfold centered
  rw [Edge.side_on, Edge.side_on, Exact.le_iff]
  simp only [Exact.value_div, Exact.value_neg, Exact.value_literal]
  norm_num
  linarith

/-- Shapes without negative sizes are upright. -/
theorem upright_shape {shape : Primitive α} (h : shape.HasSizes) : Upright shape.reading := by
  intro axis low high hlow hhigh
  cases shape with
  | cube size =>
    cases hlow
    cases hhigh
    rw [Edge.axis_on, Edge.axis_on]
    exact centered_le (h axis) axis
  | cylinder height diameter topDiameter segments =>
    obtain ⟨hheight, hdiameter, -⟩ := h
    obtain ⟨-, hwidest, -⟩ := outer_choice .max diameter (topDiameter.getD 0)
    have hwidth : 0 ≤ greater diameter (topDiameter.getD 0) :=
      Ordered.le_trans _ _ _ hdiameter hwidest
    cases axis with
    | x =>
      cases hlow
      cases hhigh
      exact centered_le hwidth .x
    | y =>
      cases hlow
      cases hhigh
      exact centered_le hwidth .y
    | z =>
      cases hlow
      cases hhigh
      exact centered_le hheight .z
  | sphere diameter segments =>
    cases hlow
    cases hhigh
    exact centered_le h axis
  | circle diameter segments =>
    cases hlow
    cases hhigh
    cases axis with
    | x => exact centered_le h .x
    | y => exact centered_le h .y
    | z => exact Ordered.le_refl 0
  | square width depth =>
    cases hlow
    cases hhigh
    cases axis with
    | x => exact centered_le h.1 .x
    | y => exact centered_le h.2 .y
    | z => exact Ordered.le_refl 0
  | text shape =>
    rw [text_reading_eq_ok hlow, text_reading_eq_ok hhigh]
    exact Ordered.le_refl 0
  | polygon points paths convexity =>
    cases points with
    | nil =>
      cases axis with
      | x | y => cases hlow
      | z =>
        cases hlow
        cases hhigh
        exact Ordered.le_refl 0
    | cons p rest =>
      cases axis with
      | x | y =>
        cases hlow
        cases hhigh
        exact leastOf_le_greatestOf (List.cons_ne_nil _ _)
      | z =>
        cases hlow
        cases hhigh
        exact Ordered.le_refl 0
  | polyhedron points faces convexity =>
    cases points with
    | nil => cases hlow
    | cons p rest =>
      cases hlow
      cases hhigh
      rw [Edge.axis_on, Edge.axis_on, Edge.side_on, Edge.side_on]
      exact leastOf_le_greatestOf (List.cons_ne_nil _ _)
  | imported file convexity layer => cases hlow

end Primitive

/-! ## §2. Trees. -/

namespace Node

/-- The node is no intersection, none of its sizes is negative, and it does not extrude
downwards or through a point. -/
def IsValid : Node α → Prop
  | .leaf _ shape => shape.HasSizes
  | .apply _ op _ => op.KeepsUpright
  | .compose _ op _ => op ≠ .intersection
  | .part .. => True

end Node

/-- What is known of no edge is upright. -/
theorem upright_failed (fault : Fault α) : Upright (Extents.failed fault).get := by
  intro axis low high hlow _
  unfold Extents.failed at hlow
  rw [Extents.get_ofFn] at hlow
  cases hlow

variable [Exact α]

/-- The extents of a valid tree are upright. -/
theorem upright_extents {n : Node α} (h : n.Everywhere Node.counted Node.IsValid) :
    Upright n.extents.get := by
  induction h with
  | @intro n here there ih =>
    have hbelow : ∀ ns : List (Node α), (∀ c ∈ ns, c ∈ n.counted) →
        ∀ x ∈ ns.map Node.extents, Upright x.get :=
      fun ns hns => List.forall_mem_map.mpr fun c hc => ih c (hns c hc)
    cases n with
    | leaf tag shape =>
      have hget : shape.extents.get = shape.reading := funext fun e => Extents.get_ofFn _ e
      show Upright shape.extents.get
      rw [hget]
      exact Primitive.upright_shape here
    | apply tag op children =>
      have hchildren := hbelow children fun c hc => hc
      rw [Node.extents_apply]
      cases children with
      | nil => exact upright_failed _
      | cons first rest =>
        have hne : (first :: rest).map Node.extents ≠ [] := List.cons_ne_nil _ _
        rw [op.get_extents hne]
        exact Operator.upright_reading here (upright_union hchildren) hchildren
    | compose tag op operands =>
      have hoperands := hbelow operands fun c hc => hc
      rw [Node.extents_compose]
      cases op with
      | union => exact upright_union hoperands
      | intersection => exact absurd rfl here
      | difference =>
        cases operands with
        | nil => exact upright_failed _
        | cons first rest => exact hoperands _ List.mem_cons_self
    | part tag members =>
      rw [Node.extents_part]
      refine upright_union (List.forall_mem_map.mpr fun s hs => ?_)
      exact ih s.node (List.mem_map_of_mem hs)

/-- **Boxes are never inverted.** In exact arithmetic, a tree without intersections, without
negative sizes and without extrusions downwards or through a point has no axis on which both
sides are known and the low one is above the high one. -/
theorem extents_upright {n : Node α} (h : n.Everywhere Node.counted Node.IsValid) {axis : Axis}
    {low high : α} (hlow : n.extents.get (.on axis .min) = .ok low)
    (hhigh : n.extents.get (.on axis .max) = .ok high) : low ≤ high :=
  upright_extents h axis low high hlow hhigh

/-! A swept part in which one shape is stretched backwards. -/

/-- A cone that is stretched backwards and summed with an upright bar, laid on its side and
swept by a quarter of a turn, with a sign on it. -/
def lever : Node ℚ :=
  .part {} {
    name := "Lever"
    children := [
      ⟨none, .apply {} (.rotateExtrude 90 none 8)
        [.apply {} (.translate ⟨5, 0, 0⟩) [.apply {} (.rotate ⟨0, 90, 0⟩)
          [.apply {} .minkowski
            [.apply {} (.scale ⟨-2, 1, 1⟩) [.leaf {} (.cylinder 4 1 (some 2) 8)],
              .apply {} (.linearExtrude 3 .straight) [.leaf {} (.square 1 2)]]]]]⟩,
      ⟨none, .leaf {} (.text { text := "up", size := 3 })⟩] }

theorem extents_upright_lever :
    lever.extents.get .bottom = .ok (-2) ∧ lever.extents.get .top = .ok 2 ∧ (-2 : ℚ) ≤ 2 := by
  have hcone : (Primitive.cylinder (4 : ℚ) 1 (some 2) 8).HasSizes := by
    refine ⟨by norm_num, by norm_num, ?_⟩
    rintro top ⟨⟩
    norm_num
  have hprofile : (Primitive.square (1 : ℚ) 2).HasSizes := ⟨by norm_num, by norm_num⟩
  have hbar : (Operator.linearExtrude (3 : ℚ) .straight).KeepsUpright := by
    refine ⟨by norm_num, ?_⟩
    show (0 : ℚ) ≤ 1.0
    norm_num
  have hvalid : lever.Everywhere Node.counted Node.IsValid := by
    repeat' first
      | exact hcone
      | exact hprofile
      | exact hbar
      | exact trivial
      | exact List.forall_mem_nil _
      | refine .intro ?_ ?_
      | refine List.forall_mem_cons.mpr ⟨?_, ?_⟩
  have hbottom : lever.extents.get (.on .z .min) = .ok (-2) := by decide +kernel
  have htop : lever.extents.get (.on .z .max) = .ok 2 := by decide +kernel
  exact ⟨hbottom, htop, extents_upright hvalid hbottom htop⟩

end SolidTree
