/-
  SolidTree.Proofs.Tree.Axes
  ──────────────────────────
  **AXES DO NOT INTERFERE.**

  Rotations and sweeps take one axis to another.  Every other operator reads,
  for an edge, the two edges on the axis of that edge alone, and so do unions,
  intersections, differences and parts.  So what a tree reads on an axis is
  made of what its leaves read there:

      x.SameOn axis y      — on this axis `y` reads what `x` reads
      n.AgreesOn axis m    — `m` is `n` with other leaves, which read on this
                             axis what the old ones do

  An edge that a leaf leaves open can open edges of its own axis only.

  Main results:
    * `sameOn_reading`, `undefined_reading` — the step for one operator over
      its children
    * `extents_axiswise` — trees
-/
import SolidTree.Proofs.Exact.Outermost
import SolidTree.Proofs.Tree.Everywhere
import SolidTree.Proofs.Tree.Readings

namespace SolidTree

variable {α : Type} {axis : Axis}

/-! ## §1. Readings on one axis. -/

namespace Extents

/-- On this axis both read the same, values and faults. -/
def SameOn (axis : Axis) (x y : Extents α) : Prop :=
  ∀ side, y.get (.on axis side) = x.get (.on axis side)

/-- Elements that read the same on an axis, one by one, are lists of the same readings there. -/
theorem map_get_eq {xs ys : List (Extents α)} (h : List.Forall₂ (SameOn axis) xs ys)
    (side : Side) : ys.map (·.get (.on axis side)) = xs.map (·.get (.on axis side)) := by
  induction h with
  | nil => rfl
  | cons hfirst _ ih => rw [List.map_cons, List.map_cons, hfirst side, ih]

/-- Readings of several elements fail together as one of them does. -/
theorem exists_get_eq_error {xs : List (Extents α)} {e : Edge} {fault : Fault α}
    (h : ((xs.map (·.get e)).mapM id : Except (Fault α) (List α)) = .error fault) :
    ∃ x ∈ xs, x.get e = .error fault := by
  obtain ⟨r, hr, hfault⟩ := Outcome.mapM_eq_error h
  obtain ⟨x, hx, rfl⟩ := List.mem_map.mp hr
  exact ⟨x, hx, hfault⟩

variable [Scalar α]

theorem sameOn_union {xs ys : List (Extents α)} (h : List.Forall₂ (SameOn axis) xs ys) :
    SameOn axis (union xs) (union ys) := by
  intro side
  rw [get_union, get_union, map_get_eq h side]

theorem sameOn_compose (op : SetOperation) {xs ys : List (Extents α)}
    (h : List.Forall₂ (SameOn axis) xs ys) : SameOn axis (compose op xs) (compose op ys) := by
  cases op with
  | union => exact sameOn_union h
  | difference =>
    cases h with
    | nil => exact fun _ => rfl
    | cons hfirst _ => exact hfirst
  | intersection =>
    cases h with
    | nil => exact fun _ => rfl
    | cons hfirst hrest =>
      intro side
      show (intersection (_ :: _)).get _ = (intersection (_ :: _)).get _
      rw [get_intersection, get_intersection, map_get_eq (.cons hfirst hrest) side]

theorem get_union_eq_error {xs : List (Extents α)} {e : Edge} {fault : Fault α}
    (h : (union xs).get e = .error fault) : ∃ x ∈ xs, x.get e = .error fault := by
  rw [get_union, outermost_eq, Outcome.map_eq_error] at h
  exact exists_get_eq_error h

theorem get_intersection_eq_error {xs : List (Extents α)} {e : Edge} {fault : Fault α}
    (h : (intersection xs).get e = .error fault) : ∃ x ∈ xs, x.get e = .error fault := by
  rw [get_intersection, innermost_eq, Outcome.map_eq_error] at h
  exact exists_get_eq_error h

/-- A set operation leaves an edge open only where an operand does. -/
theorem undefined_compose {op : SetOperation} {xs : List (Extents α)} {e : Edge}
    {cause : Unmeasured} (h : (compose op xs).get e = .error (.undefinedExtent cause)) :
    ∃ x ∈ xs, x.get e = .error (.undefinedExtent cause) := by
  cases op with
  | union => exact get_union_eq_error h
  | difference =>
    cases xs with
    | nil => cases e <;> cases h
    | cons first rest => exact ⟨first, List.mem_cons_self, h⟩
  | intersection =>
    cases xs with
    | nil => cases e <;> cases h
    | cons first rest => exact get_intersection_eq_error h

end Extents

/-! ## §2. Operators. -/

namespace Operator

/-- The operator does not take an axis to another one. -/
def KeepsAxes : Operator α → Prop
  | .rotate _ | .rotateExtrude .. => False
  | _ => True

variable [Scalar α] {child child' : Edge → Reading α} {xs ys : List (Extents α)}

theorem extrudedReading_congr (height : α) (options : ExtrudeOptions α)
    (h : ∀ side, child' (.on axis side) = child (.on axis side)) (side : Side) :
    extrudedReading height options child' (.on axis side)
      = extrudedReading height options child (.on axis side) := by
  have hlow := h .min
  have hhigh := h .max
  -- The top is measured from the bottom, which is on the same axis.
  cases axis <;> cases side <;> simp only [Edge.on] at hlow hhigh <;>
    simp only [extrudedReading, Edge.on, hlow, hhigh]

theorem undefined_mirrored {normal : Vec3 α} {side : Side} {cause : Unmeasured}
    (h : mirroredReading normal child (.on axis side) = .error (.undefinedExtent cause)) :
    ∃ side, child (.on axis side) = .error (.undefinedExtent cause) := by
  unfold mirroredReading at h
  rw [Edge.axis_on, Edge.opposite_on] at h
  by_cases hplane : 1 < (Axis.all.filter fun axis => normal.get axis != 0).length
  · rw [if_pos hplane] at h
    cases h
  · rw [if_neg hplane] at h
    by_cases hflip : (normal.get axis != 0) = true
    · obtain h | ⟨a, -, h⟩ := Outcome.bind_eq_error.mp ((if_pos hflip).symm.trans h)
      · exact ⟨side.opposite, h⟩
      · cases h
    · exact ⟨side, (if_neg hflip).symm.trans h⟩

theorem undefined_extruded {height : α} {options : ExtrudeOptions α} {side : Side}
    {cause : Unmeasured}
    (h : extrudedReading height options child (.on axis side) = .error (.undefinedExtent cause)) :
    ∃ side, child (.on axis side) = .error (.undefinedExtent cause) := by
  by_cases haxis : axis = .z
  · subst haxis
    -- Both ends are measured from the bottom.
    refine ⟨.min, ?_⟩
    cases side <;>
    · obtain h | ⟨floor, -, h⟩ := Outcome.bind_eq_error.mp h
      · exact h
      · cases h
  · refine ⟨side, ?_⟩
    have hflat : (if options.twist == 0 then do
          let a ← child (.on axis side)
          return a * options.scale
        else throw (.unsupportedTransform (.twist options.twist)) : Except (Fault α) α)
        = .error (.undefinedExtent cause) := by
      cases axis <;> cases side <;> first | exact h | exact absurd rfl haxis
    split at hflat
    next =>
      obtain h | ⟨a, -, h⟩ := Outcome.bind_eq_error.mp hflat
      · exact h
      · cases h
    next => cases hflat

/-- **An operator reads one axis**: over children that read the same on an axis it reads the
same there. -/
theorem sameOn_reading {op : Operator α} (hop : op.KeepsAxes)
    (h : ∀ side, child' (.on axis side) = child (.on axis side))
    (hchildren : List.Forall₂ (Extents.SameOn axis) xs ys) (side : Side) :
    op.reading child' ys (.on axis side) = op.reading child xs (.on axis side) := by
  cases op with
  | translate v => simp only [reading, h side]
  | rotate degrees => exact hop.elim
  | scale factors => simp only [reading, scaledReading, Edge.axis_on, h]
  | mirror normal => simp only [reading, mirroredReading, Edge.axis_on, Edge.opposite_on, h]
  | linearExtrude height options => exact extrudedReading_congr height options h side
  | rotateExtrude angle convexity segments => exact hop.elim
  | offset r delta chamfer =>
    cases r with
    | none => exact h side
    | some r => simp only [reading, grownReading, h side]
  | projection cut => simp only [reading, h side]
  | minkowski =>
    show summedReading (ys.map (·.get (.on axis side))) = _
    rw [Extents.map_get_eq hchildren side]
    rfl
  | color | slide | hull | render => exact h side

theorem sameOn_extents {op : Operator α} (hop : op.KeepsAxes)
    (h : List.Forall₂ (Extents.SameOn axis) xs ys) :
    Extents.SameOn axis (op.extents xs) (op.extents ys) := by
  cases h with
  | nil => exact fun _ => rfl
  | cons hfirst hrest =>
    intro side
    rw [op.get_extents (List.cons_ne_nil _ _), op.get_extents (List.cons_ne_nil _ _)]
    have hchildren := List.Forall₂.cons hfirst hrest
    exact sameOn_reading hop (Extents.sameOn_union hchildren) hchildren side

/-- **What an operator leaves open is open below it**: it has faults of its own, but an edge that
has no measure is one that a child has none of, on the same axis. -/
theorem undefined_reading {op : Operator α} (hop : op.KeepsAxes) {side : Side} {cause : Unmeasured}
    (h : op.reading child xs (.on axis side) = .error (.undefinedExtent cause)) :
    (∃ side, child (.on axis side) = .error (.undefinedExtent cause)) ∨
      ∃ x ∈ xs, x.get (.on axis side) = .error (.undefinedExtent cause) := by
  cases op with
  | translate v =>
    obtain h | ⟨a, -, h⟩ := Outcome.bind_eq_error.mp h
    · exact .inl ⟨side, h⟩
    · cases h
  | rotate degrees => exact hop.elim
  | scale factors =>
    unfold reading scaledReading at h
    rw [Edge.axis_on] at h
    obtain h | ⟨low, -, h⟩ := Outcome.bind_eq_error.mp h
    · exact .inl ⟨.min, h⟩
    obtain h | ⟨high, -, h⟩ := Outcome.bind_eq_error.mp h
    · exact .inl ⟨.max, h⟩
    · cases h
  | mirror normal => exact .inl (undefined_mirrored h)
  | linearExtrude height options => exact .inl (undefined_extruded h)
  | rotateExtrude angle convexity segments => exact hop.elim
  | offset r delta chamfer =>
    cases r with
    | none => exact .inl ⟨side, h⟩
    | some r =>
      by_cases hr : 0 ≤ r
      · obtain h | ⟨a, -, h⟩ := Outcome.bind_eq_error.mp ((if_pos hr).symm.trans h)
        · exact .inl ⟨side, h⟩
        · cases axis <;> cases side <;> cases h
      · exact .inl ⟨side, (if_neg hr).symm.trans h⟩
  | projection cut =>
    cases axis with
    | x | y => cases side <;> exact .inl ⟨_, h⟩
    | z => cases side <;> cases h
  | minkowski =>
    -- A sum is not read from the union of its operands but from each of them.
    obtain h | ⟨values, -, h⟩ := Outcome.bind_eq_error.mp h
    · exact .inr (Extents.exists_get_eq_error h)
    · cases values <;> cases h
  | color | slide | hull | render => exact .inl ⟨side, h⟩

theorem undefined_extents {op : Operator α} (hop : op.KeepsAxes) {side : Side} {cause : Unmeasured}
    (h : (op.extents xs).get (.on axis side) = .error (.undefinedExtent cause)) :
    ∃ x ∈ xs, ∃ side, x.get (.on axis side) = .error (.undefinedExtent cause) := by
  cases xs with
  | nil => cases axis <;> cases side <;> cases h
  | cons first rest =>
    rw [op.get_extents (List.cons_ne_nil _ _)] at h
    obtain ⟨side, h⟩ | ⟨x, hx, h⟩ := undefined_reading hop h
    · obtain ⟨x, hx, h⟩ := Extents.get_union_eq_error h
      exact ⟨x, hx, side, h⟩
    · exact ⟨x, hx, side, h⟩

end Operator

/-! ## §3. Trees. -/

namespace Node

/-- The node does not take an axis to another one. -/
def KeepsAxes : Node α → Prop
  | .apply _ op _ => op.KeepsAxes
  | _ => True

variable [Scalar α]

/-- The other tree has the same operators and set operations, over other leaves: each reads on
this axis what the leaf in its place does. What a part holds besides its structural children does
not matter, nor do modifiers and comments. -/
inductive AgreesOn (axis : Axis) : Node α → Node α → Prop where
  | leaf {tag tag' : Tag} {shape shape' : Primitive α}
    (h : shape.extents.SameOn axis shape'.extents) :
    AgreesOn axis (.leaf tag shape) (.leaf tag' shape')
  | apply {tag tag' : Tag} {op : Operator α} {children children' : List (Node α)}
    (h : List.Forall₂ (AgreesOn axis) children children') :
    AgreesOn axis (.apply tag op children) (.apply tag' op children')
  | compose {tag tag' : Tag} {op : SetOperation} {operands operands' : List (Node α)}
    (h : List.Forall₂ (AgreesOn axis) operands operands') :
    AgreesOn axis (.compose tag op operands) (.compose tag' op operands')
  | part {tag tag' : Tag} {members members' : Part α}
    (h : List.Forall₂ (AgreesOn axis) (members.children.map (·.node))
      (members'.children.map (·.node))) :
    AgreesOn axis (.part tag members) (.part tag' members')

/-- The node is a leaf and leaves an edge on this axis open, for this cause. -/
def IsUndefinedOn (axis : Axis) (cause : Unmeasured) : Node α → Prop
  | .leaf _ shape => ∃ side, shape.extents.get (.on axis side) = .error (.undefinedExtent cause)
  | _ => False

variable {n m : Node α}

/-- Trees that agree on an axis read the same there. -/
theorem sameOn_extents (hkeeps : n.Everywhere counted KeepsAxes) (h : n.AgreesOn axis m) :
    n.extents.SameOn axis m.extents := by
  induction hkeeps generalizing m with
  | @intro n here there ih =>
    have hbelow {cs ds : List (Node α)} (hcounted : ∀ c ∈ cs, c ∈ n.counted)
        (h : List.Forall₂ (AgreesOn axis) cs ds) :
        List.Forall₂ (Extents.SameOn axis) (cs.map extents) (ds.map extents) := by
      rw [List.forall₂_map_left_iff, List.forall₂_map_right_iff]
      have hsame : ∀ c ∈ cs, ∀ {d : Node α}, c.AgreesOn axis d → c.extents.SameOn axis d.extents :=
        fun c hc => ih c (hcounted c hc)
      exact ((List.forall₂_and_left _ _).mpr ⟨hsame, h⟩).imp fun c d hcd => hcd.1 hcd.2
    cases h with
    | leaf h => exact h
    | apply h =>
      rw [extents_apply, extents_apply]
      exact Operator.sameOn_extents here (hbelow (fun _ hc => hc) h)
    | compose h =>
      rw [extents_compose, extents_compose]
      exact Extents.sameOn_compose _ (hbelow (fun _ hc => hc) h)
    | @part tag _ members members' h =>
      have hcounted : ∀ s ∈ members.children.map (·.node), s ∈ (Node.part tag members).counted :=
        fun _ hs => hs
      have hchildren := hbelow hcounted h
      rw [List.map_map, List.map_map] at hchildren
      rw [extents_part, extents_part]
      exact Extents.sameOn_union hchildren

/-- An edge that a tree leaves open is left open by a leaf, on the same axis. -/
theorem somewhere_undefined (hkeeps : n.Everywhere counted KeepsAxes) {side : Side}
    {cause : Unmeasured} (h : n.extents.get (.on axis side) = .error (.undefinedExtent cause)) :
    n.Somewhere counted (IsUndefinedOn axis cause) := by
  induction hkeeps generalizing side with
  | @intro n here there ih =>
    cases n with
    | leaf tag shape => exact .here ⟨side, h⟩
    | apply tag op children =>
      rw [extents_apply] at h
      obtain ⟨x, hx, side, h⟩ := Operator.undefined_extents here h
      obtain ⟨c, hc, rfl⟩ := List.mem_map.mp hx
      exact .there hc (ih c hc h)
    | compose tag op operands =>
      rw [extents_compose] at h
      obtain ⟨x, hx, h⟩ := Extents.undefined_compose h
      obtain ⟨c, hc, rfl⟩ := List.mem_map.mp hx
      exact .there hc (ih c hc h)
    | part tag members =>
      rw [extents_part] at h
      obtain ⟨x, hx, h⟩ := Extents.get_union_eq_error h
      obtain ⟨s, hs, rfl⟩ := List.mem_map.mp hx
      have hc : s.node ∈ (Node.part tag members).counted := List.mem_map_of_mem hs
      exact .there hc (ih s.node hc h)

/-- **Axes do not interfere.** In a tree without rotations and sweeps, what is read on an axis,
coordinates and faults, is made of the operators and of what the leaves read on that axis: with
other leaves that read the same there, the tree reads the same there. An edge that has no measure
is one that some leaf has none of on the same axis, whatever is unknown on the others. -/
theorem extents_axiswise (hkeeps : n.Everywhere counted KeepsAxes) (axis : Axis) :
    (∀ m, n.AgreesOn axis m →
        ∀ side, m.extents.get (.on axis side) = n.extents.get (.on axis side)) ∧
      ∀ side cause, n.extents.get (.on axis side) = .error (.undefinedExtent cause) →
        n.Somewhere counted (IsUndefinedOn axis cause) :=
  ⟨fun _ h => sameOn_extents hkeeps h, fun _ _ h => somewhere_undefined hkeeps h⟩

/-! A plaque with a raised lettering, which nobody knows the width of, or with a raised bar. -/

/-- A plate, stretched and turned over, with something on it that is raised and drawn twice as
wide. -/
def plaque (raised : Primitive ℚ) : Node ℚ :=
  .part {} {
    name := "Plaque"
    children := [
      ⟨some "plate", .apply {} (.mirror ⟨0, 0, 1⟩) [.apply {} (.scale ⟨3, -2, 1⟩)
        [.leaf {} (.cube ⟨4, 4, 2⟩)]]⟩,
      ⟨some "front", .apply {} (.translate ⟨1, 0, 1⟩) [.apply {} (.scale ⟨2, 1, 1⟩)
        [.apply {} (.linearExtrude 2 .straight) [.leaf {} raised]]]⟩] }

/-- A word of which only the left end and the foot are known. -/
def lettering : Primitive ℚ := .text { text := "on", size := 10 }

/-- The bar has the height of the lettering, so the plaque has too. To the right the lettering is
what leaves the edge of the plaque open. -/
theorem extents_axiswise_plaque :
    (plaque lettering).AgreesOn .z (plaque (.square 3 4)) ∧
      (plaque lettering).extents.get .top = .ok 3 ∧
      (plaque (.square 3 4)).extents.get .top = (plaque lettering).extents.get .top ∧
      (plaque lettering).extents.get .right = .error (.undefinedExtent (.glyphs .right)) ∧
      (plaque lettering).Somewhere counted (IsUndefinedOn .x (.glyphs .right)) := by
  have hkeeps : (plaque lettering).Everywhere counted KeepsAxes := by
    repeat' first
      | exact trivial
      | exact List.forall_mem_nil _
      | refine .intro ?_ ?_
      | refine List.forall_mem_cons.mpr ⟨?_, ?_⟩
  have hfront : (Node.leaf {} lettering).AgreesOn .z (.leaf {} (.square 3 4)) := by
    refine .leaf fun side => ?_
    cases side <;> rfl
  have hplate : (Node.leaf {} (.cube (⟨4, 4, 2⟩ : Vec3 ℚ))).AgreesOn .z (.leaf {} (.cube ⟨4, 4, 2⟩)) :=
    .leaf fun _ => rfl
  have hagrees : (plaque lettering).AgreesOn .z (plaque (.square 3 4)) :=
    .part (.cons (.apply (.cons (.apply (.cons hplate .nil)) .nil))
      (.cons (.apply (.cons (.apply (.cons (.apply (.cons hfront .nil)) .nil)) .nil)) .nil))
  have hright : (plaque lettering).extents.get .right
      = .error (.undefinedExtent (.glyphs .right)) := by decide +kernel
  exact ⟨hagrees, by decide +kernel, (extents_axiswise hkeeps .z).1 _ hagrees .max, hright,
    (extents_axiswise hkeeps .x).2 .max _ hright⟩

end Node

end SolidTree
