/-
  SolidTree.Proofs.Upright.Operators
  ──────────────────────────────────
  **OPERATORS DO NOT INVERT BOXES.**

  Readings are upright if on no axis the high edge is below the low one; an
  axis of which one side is unknown is no matter.  Every operator keeps
  readings upright, whichever sides it swaps, and whichever edges it fails
  on:

      translate, offset, project, extrude  — sides move apart or together
      rotate, mirror                       — two sides are negated and swapped
      scale, revolve                       — low and high are chosen anew

  Only an extrusion that goes down, or that shrinks to a negative scale,
  would invert a box.

  Main result:
    * `upright_reading` — the step for one operator over its children
-/
import SolidTree.Proofs.Exact.Value
import SolidTree.Proofs.Rotation.Axial
import SolidTree.Proofs.Tree.Readings

namespace SolidTree

open Outcome Scalar

/-! ## §1. Upright readings. -/

section Readings

variable {α : Type} [Scalar α]

/-- Where both sides of an axis are known, the low one is not above the high one. -/
def Upright (x : Edge → Reading α) : Prop :=
  ∀ axis low high, x (.on axis .min) = .ok low → x (.on axis .max) = .ok high → low ≤ high

/-- Upright readings stay so if each side goes through a function and the two functions do
not take the low side beyond the high one. -/
theorem Upright.of_sides {x y : Edge → Reading α} (h : Upright x) {f : Edge → α → α}
    (hread : ∀ e v, y e = .ok v → ∃ a, x e = .ok a ∧ v = f e a)
    (hle : ∀ axis a b, a ≤ b → f (.on axis .min) a ≤ f (.on axis .max) b) : Upright y := by
  intro axis low high hlow hhigh
  obtain ⟨a, ha, rfl⟩ := hread _ low hlow
  obtain ⟨b, hb, rfl⟩ := hread _ high hhigh
  exact hle axis a b (h axis a b ha hb)

/-- A union is upright if its elements are. -/
theorem upright_union [Ordered α] {xs : List (Extents α)} (h : ∀ x ∈ xs, Upright x.get) :
    Upright (Extents.union xs).get := by
  intro axis low high hlow hhigh
  rw [Extents.get_union, Edge.side_on] at hlow hhigh
  cases xs with
  | nil =>
    -- Nothing sits at the origin.
    cases hlow
    cases hhigh
    exact Ordered.le_refl 0
  | cons x rest =>
    have hne : ∀ e : Edge, (x :: rest).map (·.get e) ≠ [] := fun _ => List.cons_ne_nil _ _
    -- One element is enough: both sides of it are known and within those of the union.
    have hmem : ∀ e : Edge, x.get e ∈ (x :: rest).map (·.get e) :=
      fun e => List.mem_map_of_mem List.mem_cons_self
    obtain ⟨a, ha, hlow'⟩ := (Extents.outermost_spec (hne _) hlow).2 _ (hmem _)
    obtain ⟨b, hb, hhigh'⟩ := (Extents.outermost_spec (hne _) hhigh).2 _ (hmem _)
    have hab : a ≤ b := h x List.mem_cons_self axis a b ha hb
    exact Ordered.le_trans _ _ _ hlow' (Ordered.le_trans _ _ _ hab hhigh')

end Readings

namespace Operator

variable {α : Type} [Scalar α] [Exact α] {child : Edge → Reading α}

/-! ## §2. Operators that move sides. -/

theorem upright_translate (h : Upright child) (v : Vec3 α) (children : List (Extents α)) :
    Upright ((Operator.translate v).reading child children) := by
  refine h.of_sides (f := fun e a => a + v.get e.axis) ?_ ?_
  · intro e x hx
    obtain ⟨a, ha, hresult⟩ := bind_eq_ok.mp hx
    exact ⟨a, ha, (Except.ok.inj hresult).symm⟩
  · intro axis a b hab
    have hreal := Exact.le_iff.mp hab
    rw [Edge.axis_on, Edge.axis_on, Exact.le_iff, Exact.value_add, Exact.value_add]
    exact add_le_add_left hreal _

/-- Growth by a length that is not negative moves sides apart. -/
theorem upright_grown (h : Upright child) {r : α} (hr : 0 ≤ r) :
    Upright (grownReading r child) := by
  refine h.of_sides (f := fun e a => match e with
    | .left | .back => a - r
    | .right | .front => a + r
    | .bottom | .top => a) ?_ ?_
  · intro e x hx
    obtain ⟨a, ha, hresult⟩ := bind_eq_ok.mp hx
    refine ⟨a, ha, ?_⟩
    cases e <;> exact (Except.ok.inj hresult).symm
  · intro axis a b hab
    have hreal := Exact.le_iff.mp hab
    have hgrowth := Exact.le_iff.mp hr
    rw [Exact.value_zero] at hgrowth
    rw [Exact.le_iff]
    cases axis with
    | z => exact hreal
    | x | y =>
      show Exact.value (a - r) ≤ Exact.value (b + r)
      rw [Exact.value_sub, Exact.value_add]
      linarith

theorem upright_projection (h : Upright child) (cut : Bool) (children : List (Extents α)) :
    Upright ((Operator.projection cut).reading child children) := by
  intro axis low high hlow hhigh
  cases axis with
  | z =>
    cases hlow
    cases hhigh
    exact Ordered.le_refl 0
  | x => exact h .x low high hlow hhigh
  | y => exact h .y low high hlow hhigh

/-- An extrusion upwards, to a scale that is not negative. -/
theorem upright_extruded (h : Upright child) {height : α} {options : ExtrudeOptions α}
    (hheight : 0 ≤ height) (hscale : 0 ≤ options.scale) :
    Upright (extrudedReading height options child) := by
  have hheight' := Exact.le_iff.mp hheight
  have hscale' := Exact.le_iff.mp hscale
  rw [Exact.value_zero] at hheight' hscale'
  -- The sides of the profile are read only if it does not turn.
  have hside : ∀ e x, e.axis ≠ .z → extrudedReading height options child e = .ok x →
      ∃ a, child e = .ok a ∧ x = a * options.scale := by
    intro e x he hx
    have hflat : (if options.twist == 0 then do
          let side ← child e
          return side * options.scale
        else throw (.unsupportedTransform (.twist options.twist)) : Except (Fault α) α)
        = .ok x := by
      cases e <;> first | exact hx | exact absurd rfl he
    split at hflat
    next =>
      obtain ⟨a, ha, hresult⟩ := bind_eq_ok.mp hflat
      exact ⟨a, ha, (Except.ok.inj hresult).symm⟩
    next => cases hflat
  intro axis low high hlow hhigh
  by_cases haxis : axis = .z
  · subst haxis
    obtain ⟨floor, hfloor, hlow'⟩ := bind_eq_ok.mp hlow
    obtain ⟨floor', hfloor', hhigh'⟩ := bind_eq_ok.mp hhigh
    -- Both ends are read from the floor of the profile.
    obtain rfl : floor = floor' := Except.ok.inj (hfloor.symm.trans hfloor')
    cases Except.ok.inj hlow'
    cases Except.ok.inj hhigh'
    rw [Exact.le_iff]
    by_cases hcenter : options.center = true
    · rw [if_pos hcenter, if_pos hcenter]
      simp only [Exact.value_sub, Exact.value_add, Exact.value_div, Exact.value_literal]
      norm_num
      linarith
    · rw [if_neg hcenter, if_neg hcenter, Exact.value_add]
      linarith
  · obtain ⟨a, ha, rfl⟩ := hside _ low (by rwa [Edge.axis_on]) hlow
    obtain ⟨b, hb, rfl⟩ := hside _ high (by rwa [Edge.axis_on]) hhigh
    have hreal := Exact.le_iff.mp (h axis a b ha hb)
    rw [Exact.le_iff, Exact.value_mul, Exact.value_mul]
    exact mul_le_mul_of_nonneg_right hreal hscale'

/-! ## §3. Operators that swap sides. -/

theorem upright_turned (h : Upright child) (t : QuarterTurn) : Upright (t.reading child) := by
  intro axis low high hlow hhigh
  obtain ⟨column, negated, hsource⟩ := t.source_on axis
  unfold QuarterTurn.reading at hlow hhigh
  rw [hsource] at hlow hhigh
  obtain ⟨a, ha, hlow'⟩ := bind_eq_ok.mp hlow
  obtain ⟨b, hb, hhigh'⟩ := bind_eq_ok.mp hhigh
  cases Except.ok.inj hlow'
  cases Except.ok.inj hhigh'
  cases negated with
  | false => exact h column a b ha hb
  | true => exact Exact.neg_le (h column b a hb ha)

omit [Exact α] in
/-- An edge of a mirror image is the opposite edge, negated, or the edge itself. -/
theorem mirroredReading_eq_ok {normal : Vec3 α} {axis : Axis} {side : Side} {v : α}
    (h : mirroredReading normal child (.on axis side) = .ok v) :
    if normal.get axis != 0 then ∃ a, child (.on axis side.opposite) = .ok a ∧ v = -a
    else child (.on axis side) = .ok v := by
  unfold mirroredReading Edge.opposite at h
  rw [Edge.axis_on, Edge.side_on] at h
  by_cases hplane : 1 < (Axis.all.filter fun axis => normal.get axis != 0).length
  · rw [if_pos hplane] at h
    cases h
  · rw [if_neg hplane] at h
    by_cases hflip : (normal.get axis != 0) = true
    · rw [if_pos hflip]
      obtain ⟨a, ha, hresult⟩ := bind_eq_ok.mp ((if_pos hflip).symm.trans h)
      exact ⟨a, ha, (Except.ok.inj hresult).symm⟩
    · rw [if_neg hflip]
      exact (if_neg hflip).symm.trans h

theorem upright_mirrored (h : Upright child) (normal : Vec3 α) :
    Upright (mirroredReading normal child) := by
  intro axis low high hlow hhigh
  have hlow' := mirroredReading_eq_ok hlow
  have hhigh' := mirroredReading_eq_ok hhigh
  by_cases hflip : (normal.get axis != 0) = true
  · rw [if_pos hflip] at hlow' hhigh'
    obtain ⟨a, ha, rfl⟩ := hlow'
    obtain ⟨b, hb, rfl⟩ := hhigh'
    exact Exact.neg_le (h axis b a hb ha)
  · rw [if_neg hflip] at hlow' hhigh'
    exact h axis low high hlow' hhigh'

/-! ## §4. Operators that choose sides anew. -/

/-- Whatever the factor, the outer one of the two products is taken. -/
theorem upright_scaled (factors : Vec3 α) : Upright (scaledReading factors child) := by
  intro axis low high hlow hhigh
  unfold scaledReading at hlow hhigh
  simp only [Edge.axis_on, Edge.side_on] at hlow hhigh
  obtain ⟨a, ha, hlow'⟩ := bind_eq_ok.mp hlow
  obtain ⟨b, hb, hlow'⟩ := bind_eq_ok.mp hlow'
  obtain ⟨a', ha', hhigh'⟩ := bind_eq_ok.mp hhigh
  obtain ⟨b', hb', hhigh'⟩ := bind_eq_ok.mp hhigh'
  obtain rfl : a = a' := Except.ok.inj (ha.symm.trans ha')
  obtain rfl : b = b' := Except.ok.inj (hb.symm.trans hb')
  cases Except.ok.inj hlow'
  cases Except.ok.inj hhigh'
  obtain ⟨-, hmin, -⟩ := outer_choice .min (a * factors.get axis) (b * factors.get axis)
  obtain ⟨-, hmax, -⟩ := outer_choice .max (a * factors.get axis) (b * factors.get axis)
  exact Ordered.le_trans _ _ _ hmin hmax

/-- Both sides of a partial sweep are taken from the same points. -/
theorem sectorEdge_le (angle left right : α) (axis : Axis) :
    sectorEdge angle left right (.on axis .min) ≤ sectorEdge angle left right (.on axis .max) := by
  unfold sectorEdge
  simp only [Edge.axis_on, Edge.side_on]
  exact leastOf_le_greatestOf (List.cons_ne_nil _ _)

/-- A profile beside the axis reaches as far to one side as to the other. -/
theorem outerRadius_nonneg {left right : α} (hprofile : left ≤ right)
    (hside : ¬ (left < 0 ∧ 0 < right)) :
    -Scalar.greater right (-left) ≤ Scalar.greater right (-left) := by
  obtain ⟨-, hright, hleft⟩ := outer_choice .max right (-left)
  have hright' := Exact.le_iff.mp hright
  have hleft' := Exact.le_iff.mp hleft
  have hprofile' := Exact.le_iff.mp hprofile
  rw [Exact.value_neg] at hleft'
  rw [Exact.lt_iff, Exact.lt_iff, Exact.value_zero, not_and_or, not_lt, not_lt] at hside
  rw [Exact.le_iff, Exact.value_neg]
  show -Exact.value (Extents.outer .max right (-left)) ≤ Exact.value (Extents.outer .max right (-left))
  rcases hside with h | h <;> linarith

theorem upright_revolved (h : Upright child) (angle : α) : Upright (revolvedReading angle child) := by
  intro axis low high hlow hhigh
  obtain ⟨left, hleft, hlow⟩ := bind_eq_ok.mp hlow
  obtain ⟨right, hright, hlow⟩ := bind_eq_ok.mp hlow
  obtain ⟨left', hleft', hhigh⟩ := bind_eq_ok.mp hhigh
  obtain ⟨right', hright', hhigh⟩ := bind_eq_ok.mp hhigh
  obtain rfl : left = left' := Except.ok.inj (hleft.symm.trans hleft')
  obtain rfl : right = right' := Except.ok.inj (hright.symm.trans hright')
  by_cases hcross : left < 0 ∧ 0 < right
  · rw [if_pos hcross] at hlow
    cases hlow
  · rw [if_neg hcross] at hlow hhigh
    cases axis with
    | z =>
      -- The height is the depth of the profile, with the origin.
      obtain ⟨back, -, hlow⟩ := bind_eq_ok.mp hlow
      obtain ⟨front, -, hhigh⟩ := bind_eq_ok.mp hhigh
      cases Except.ok.inj hlow
      cases Except.ok.inj hhigh
      obtain ⟨-, -, hmin⟩ := outer_choice .min back 0
      obtain ⟨-, -, hmax⟩ := outer_choice .max front 0
      exact Ordered.le_trans _ _ _ hmin hmax
    | x | y =>
      by_cases hturn : 360.0 ≤ Scalar.abs angle
      · cases Except.ok.inj ((if_pos hturn).symm.trans hlow)
        cases Except.ok.inj ((if_pos hturn).symm.trans hhigh)
        exact outerRadius_nonneg (h .x left right hleft hright) hcross
      · cases Except.ok.inj ((if_neg hturn).symm.trans hlow)
        cases Except.ok.inj ((if_neg hturn).symm.trans hhigh)
        exact sectorEdge_le angle left right _

/-! ## §5. Any operator. -/

/-- A known sum is that of known readings. -/
theorem value_summed {readings : List (Reading α)} {v : α} (h : summedReading readings = .ok v) :
    ∃ vs : List α, readings = vs.map .ok ∧ Exact.value v = (vs.map Exact.value).sum := by
  have hfold : ∀ (rest : List α) (a : α), Exact.value (rest.foldl (· + ·) a)
      = Exact.value a + (rest.map Exact.value).sum := by
    intro rest
    induction rest with
    | nil => simp
    | cons b rest ih =>
      intro a
      rw [List.foldl_cons, ih, Exact.value_add, List.map_cons, List.sum_cons, add_assoc]
  obtain ⟨vs, hvs, hresult⟩ := bind_eq_ok.mp h
  refine ⟨vs, mapM_id_eq_ok.mp hvs, ?_⟩
  cases vs with
  | nil =>
    cases Except.ok.inj hresult
    exact Exact.value_zero
  | cons a rest =>
    cases Except.ok.inj hresult
    exact hfold rest a

theorem upright_summed {xs : List (Extents α)} (h : ∀ x ∈ xs, Upright x.get) :
    Upright fun e => summedReading (xs.map (·.get e)) := by
  intro axis low high hlow hhigh
  obtain ⟨vs, hvs, hlow'⟩ := value_summed hlow
  obtain ⟨ws, hws, hhigh'⟩ := value_summed hhigh
  rw [Exact.le_iff, hlow', hhigh']
  clear hlow hhigh hlow' hhigh'
  -- The induction is on the elements, for the known readings that belong to them.
  induction xs generalizing vs ws with
  | nil =>
    obtain rfl : vs = [] := by simpa using hvs
    obtain rfl : ws = [] := by simpa using hws
    exact le_refl _
  | cons x rest ih =>
    cases vs with
    | nil => cases hvs
    | cons v vs =>
      cases ws with
      | nil => cases hws
      | cons w ws =>
        obtain ⟨hv, hvs⟩ := List.cons.inj hvs
        obtain ⟨hw, hws⟩ := List.cons.inj hws
        have hfirst := Exact.le_iff.mp (h x List.mem_cons_self axis v w hv hw)
        have hrest := ih (fun y hy => h y (List.mem_cons_of_mem x hy)) vs hvs ws hws
        rw [List.map_cons, List.map_cons, List.sum_cons, List.sum_cons]
        exact add_le_add hfirst hrest

/-- The operator does not extrude downwards or through a point. -/
def KeepsUpright : Operator α → Prop
  | .linearExtrude height options => 0 ≤ height ∧ 0 ≤ options.scale
  | _ => True

/-- **No operator inverts a box**, unless it extrudes downwards or through a point. -/
theorem upright_reading {op : Operator α} (hop : op.KeepsUpright) (h : Upright child)
    {children : List (Extents α)} (hchildren : ∀ x ∈ children, Upright x.get) :
    Upright (op.reading child children) := by
  cases op with
  | translate v => exact upright_translate h v children
  | rotate degrees =>
    intro axis low high hlow hhigh
    obtain ⟨turn, hturn, hlow⟩ := bind_eq_ok.mp hlow
    obtain ⟨turn', hturn', hhigh⟩ := bind_eq_ok.mp hhigh
    obtain rfl : turn = turn' := Except.ok.inj (hturn.symm.trans hturn')
    exact upright_turned h turn axis low high hlow hhigh
  | scale factors => exact upright_scaled factors
  | mirror normal => exact upright_mirrored h normal
  | linearExtrude height options => exact upright_extruded h hop.1 hop.2
  | rotateExtrude angle convexity segments => exact upright_revolved h angle
  | offset r delta chamfer =>
    cases r with
    | none => exact h
    | some r =>
      by_cases hr : 0 ≤ r
      · intro axis low high hlow hhigh
        exact upright_grown h hr axis low high ((if_pos hr).symm.trans hlow)
          ((if_pos hr).symm.trans hhigh)
      · intro axis low high hlow hhigh
        exact h axis low high ((if_neg hr).symm.trans hlow) ((if_neg hr).symm.trans hhigh)
  | projection cut => exact upright_projection h cut children
  | minkowski => exact upright_summed hchildren
  | color | slide | hull | render => exact h

end Operator

end SolidTree
