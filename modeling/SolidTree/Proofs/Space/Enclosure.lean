/-
  SolidTree.Proofs.Space.Enclosure
  ────────────────────────────────
  **EDGES AND THE POINTS BETWEEN THEM.**

  Six readings may be right about a set of points in two ways:

      Encloses r S  — no point of `S` is beyond an edge that is known
      Touches r S   — `S` has a point, and one on every edge that is known

  An operator keeps both.  Those that move every point by itself do so for
  one reason: they carry edges along with the points.

  Main results:
    * `encloses_reading` — operators over readings that enclose their points
    * `touches_reading`  — the same for readings that touch them
-/
import Mathlib.Analysis.Convex.Hull
import SolidTree.Proofs.Exact.Outermost
import SolidTree.Proofs.Space.Turned

namespace SolidTree

/-! ## §1. Readings and points. -/

/-- No point is beyond an edge that is known. -/
def Encloses (r : Edge → Reading ℚ) (S : Set Point) : Prop :=
  ∀ e v, r e = .ok v → ∀ p ∈ S, e.side.Within (v : ℝ) (p e.axis)

/-- There is a point, and one on every edge that is known. -/
def Touches (r : Edge → Reading ℚ) (S : Set Point) : Prop :=
  S.Nonempty ∧ ∀ e v, r e = .ok v → ∃ p ∈ S, p e.axis = (v : ℝ)

variable {r child : Edge → Reading ℚ} {S T : Set Point} {f : Point → Point}

theorem Encloses.subset (h : Encloses r S) (hsub : T ⊆ S) : Encloses r T :=
  fun e v hv p hp => h e v hv p (hsub hp)

/-- Each known edge is taken there from a known edge before, by what is between the edges
and by what is on them. -/
def Carries (child r : Edge → Reading ℚ) (f : Point → Point) : Prop :=
  ∀ e v, r e = .ok v →
    (∃ e' u, child e' = .ok u ∧
      ∀ p : Point, e'.side.Within (u : ℝ) (p e'.axis) → e.side.Within (v : ℝ) (f p e.axis)) ∧
    ∃ e' u, child e' = .ok u ∧ ∀ p : Point, p e'.axis = (u : ℝ) → f p e.axis = (v : ℝ)

theorem Carries.encloses (hf : Carries child r f) (h : Encloses child S) :
    Encloses r (f '' S) := by
  rintro e v hv _ ⟨p, hp, rfl⟩
  obtain ⟨e', u, hu, hmaps⟩ := (hf e v hv).1
  exact hmaps p (h e' u hu p hp)

theorem Carries.touches (hf : Carries child r f) (h : Touches child S) : Touches r (f '' S) := by
  refine ⟨h.1.image f, fun e v hv => ?_⟩
  obtain ⟨e', u, hu, hmaps⟩ := (hf e v hv).2
  obtain ⟨p, hp, hon⟩ := h.2 e' u hu
  exact ⟨f p, Set.mem_image_of_mem f hp, hmaps p hon⟩

/-! ## §2. Translations and rotations. -/

/-- An edge of a translation comes from the same edge. -/
theorem translate_source {v : Vec3 ℚ} {xs : List (Extents ℚ)} {e : Edge} {w : ℚ}
    (h : (Operator.translate v).reading child xs e = .ok w) :
    ∃ u, child e = .ok u ∧ w = u + v.get e.axis := by
  obtain ⟨u, hu, hw⟩ := Outcome.bind_eq_ok.mp h
  exact ⟨u, hu, (Except.ok.inj hw).symm⟩

theorem carries_translate (v : Vec3 ℚ) (xs : List (Extents ℚ)) :
    Carries child ((Operator.translate v).reading child xs) (· + v.point) := by
  intro e w hw
  obtain ⟨u, hu, rfl⟩ := translate_source hw
  rw [Rat.cast_add]
  refine ⟨⟨e, u, hu, fun p hp => hp.add (e.side.within_refl _)⟩, e, u, hu, fun p hp => ?_⟩
  rw [← hp]
  rfl

/-- An edge of a rotation is only known if the rotation is accepted, and then it comes from
the edge that the matrix takes there. -/
theorem rotate_source {a : Vec3 ℚ} {xs : List (Extents ℚ)} {e : Edge} {w : ℚ}
    (h : (Operator.rotate a).reading child xs e = .ok w) :
    ∃ (column : Axis) (negated : Bool) (u : ℚ),
      child (.on column (if negated then e.side.opposite else e.side)) = .ok u ∧
      w = (if negated then -u else u) ∧
      ∀ p, Point.rotate a p e.axis = if negated then -p column else p column := by
  obtain ⟨t, ht, hread⟩ := Outcome.bind_eq_ok.mp h
  obtain ⟨column, negated, hrow⟩ := QuarterTurn.isAxial_ofDegrees ht e.axis
  rw [QuarterTurn.reading_of_row hrow] at hread
  obtain ⟨u, hu, hw⟩ := Outcome.map_eq_ok.mp hread
  refine ⟨column, negated, u, hu, hw.symm, fun p => ?_⟩
  rw [QuarterTurn.rotate_eq_act ht]
  exact QuarterTurn.act_of_row hrow p

theorem carries_rotate (a : Vec3 ℚ) (xs : List (Extents ℚ)) :
    Carries child ((Operator.rotate a).reading child xs) (Point.rotate a) := by
  intro e w hw
  obtain ⟨column, negated, u, hu, rfl, hrotate⟩ := rotate_source hw
  refine ⟨⟨_, u, hu, fun p hp => ?_⟩, _, u, hu, fun p hp => ?_⟩
  · rw [Edge.side_on, Edge.axis_on] at hp
    rw [hrotate]
    -- A negated coordinate is read from the other side.
    cases negated with
    | false => exact hp
    | true =>
      simp only [if_true, Rat.cast_neg]
      exact Side.Within.neg hp
  · rw [Edge.axis_on] at hp
    rw [hrotate, hp]
    cases negated <;> simp

/-! ## §3. Scalings and reflections. -/

/-- An edge of a scaling is the outer one of the two edges on its axis, each multiplied. -/
theorem scale_source {factors : Vec3 ℚ} {xs : List (Extents ℚ)} {e : Edge} {w : ℚ}
    (h : (Operator.scale factors).reading child xs e = .ok w) :
    (∀ s, ∃ u, child (.on e.axis s) = .ok u ∧ e.side.Within w (u * factors.get e.axis)) ∧
      ∃ s u, child (.on e.axis s) = .ok u ∧ w = u * factors.get e.axis := by
  -- Both edges on the axis are read, since a negative factor swaps them.
  obtain ⟨low, hlow, h⟩ := Outcome.bind_eq_ok.mp h
  obtain ⟨high, hhigh, h⟩ := Outcome.bind_eq_ok.mp h
  obtain rfl := Except.ok.inj h
  obtain ⟨hone, hwlow, hwhigh⟩ :=
    Rational.outer_spec e.side (low * factors.get e.axis) (high * factors.get e.axis)
  constructor
  · intro s
    cases s with
    | min => exact ⟨low, hlow, hwlow⟩
    | max => exact ⟨high, hhigh, hwhigh⟩
  · rcases hone with hone | hone
    · exact ⟨.min, low, hlow, hone⟩
    · exact ⟨.max, high, hhigh, hone⟩

theorem carries_scale (factors : Vec3 ℚ) (xs : List (Extents ℚ)) :
    Carries child ((Operator.scale factors).reading child xs) (· * factors.point) := by
  intro e w hw
  obtain ⟨hsides, s, u, hu, hw⟩ := scale_source hw
  constructor
  · -- Nothing is beyond the edge of its own side, or that of the other one if the factor
    -- is negative, and the outer one of the two is read.
    show ∃ e' u, child e' = .ok u ∧ ∀ p : Point, e'.side.Within (u : ℝ) (p e'.axis) →
      e.side.Within (w : ℝ) (p e.axis * (factors.get e.axis : ℝ))
    by_cases hfactor : 0 ≤ factors.get e.axis
    · obtain ⟨u, hu, hwithin⟩ := hsides e.side
      refine ⟨_, u, hu, fun p hp => ?_⟩
      rw [Edge.side_on, Edge.axis_on] at hp
      have hcast := Side.within_cast.mpr hwithin
      rw [Rat.cast_mul] at hcast
      exact hcast.trans (hp.mul_nonneg (by exact_mod_cast hfactor))
    · obtain ⟨u, hu, hwithin⟩ := hsides e.side.opposite
      refine ⟨_, u, hu, fun p hp => ?_⟩
      rw [Edge.side_on, Edge.axis_on] at hp
      have hcast := Side.within_cast.mpr hwithin
      rw [Rat.cast_mul] at hcast
      exact hcast.trans (hp.mul_nonpos (by exact_mod_cast le_of_not_ge hfactor))
  · refine ⟨_, u, hu, fun p hp => ?_⟩
    rw [Edge.axis_on] at hp
    rw [hw, Rat.cast_mul, ← hp]
    rfl

/-- An edge of a reflection comes from the opposite one if its axis is flipped, and then
no other axis is. -/
theorem mirror_source {normal : Vec3 ℚ} {xs : List (Extents ℚ)} {e : Edge} {w : ℚ}
    (h : (Operator.mirror normal).reading child xs e = .ok w) :
    (normal.get e.axis = 0 ∧ child e = .ok w) ∨
      (normal.get e.axis ≠ 0 ∧ (∀ axis, axis ≠ e.axis → normal.get axis = 0) ∧
        ∃ u, child e.opposite = .ok u ∧ w = -u) := by
  have hmirror : Operator.mirroredReading normal child e = .ok w := h
  unfold Operator.mirroredReading at hmirror
  by_cases hmany : 1 < (Axis.all.filter fun axis => normal.get axis != 0).length
  · rw [if_pos hmany] at hmirror
    cases hmirror
  · rw [if_neg hmany] at hmirror
    dsimp only at hmirror
    by_cases hflipped : (normal.get e.axis != 0) = true
    · rw [if_pos hflipped] at hmirror
      obtain ⟨u, hu, hw⟩ := Outcome.bind_eq_ok.mp hmirror
      refine .inr ⟨bne_iff_ne.mp hflipped, fun axis hne => ?_, u, hu, (Except.ok.inj hw).symm⟩
      -- Another flipped axis would be the second one.
      by_contra hother
      have hnodup : [axis, e.axis].Nodup := by simpa using hne
      have hsub : [axis, e.axis] ⊆ Axis.all.filter fun axis => normal.get axis != 0 := by
        have hall : ∀ axis, axis ∈ Axis.all := fun axis => by cases axis <;> decide
        intro b hb
        rw [List.mem_filter]
        refine ⟨hall b, ?_⟩
        rcases List.mem_pair.mp hb with rfl | rfl
        · exact bne_iff_ne.mpr hother
        · exact hflipped
      exact hmany (hnodup.subperm hsub).length_le
    · rw [if_neg hflipped] at hmirror
      exact .inl ⟨by simpa using hflipped, hmirror⟩

/-- A reflection leaves a coordinate alone if the normal has none there. -/
theorem reflect_of_zero {normal : Vec3 ℚ} {axis : Axis} (h : normal.get axis = 0) (p : Point) :
    Point.reflect normal p axis = p axis := by
  unfold Point.reflect
  rw [h, Rat.cast_zero, mul_zero, sub_zero]

/-- A reflection along an axis negates the coordinate. -/
theorem reflect_of_single {normal : Vec3 ℚ} {axis : Axis} (h : normal.get axis ≠ 0)
    (hothers : ∀ b, b ≠ axis → normal.get b = 0) (p : Point) :
    Point.reflect normal p axis = -p axis := by
  obtain ⟨x, y, z⟩ := normal
  have hne : ((Vec3.get ⟨x, y, z⟩ axis : ℚ) : ℝ) ≠ 0 := by exact_mod_cast h
  have hx := hothers .x
  have hy := hothers .y
  have hz := hothers .z
  unfold Point.reflect
  -- One product of three is left, and the normal cancels: `p - 2 * p`.
  cases axis <;> simp_all [Vec3.get] <;> field_simp <;> ring

theorem carries_mirror (normal : Vec3 ℚ) (xs : List (Extents ℚ)) :
    Carries child ((Operator.mirror normal).reading child xs) (Point.reflect normal) := by
  intro e w hw
  rcases mirror_source hw with ⟨hzero, hw⟩ | ⟨hne, hothers, u, hu, rfl⟩
  · refine ⟨⟨e, w, hw, fun p hp => ?_⟩, e, w, hw, fun p hp => ?_⟩
    · rw [reflect_of_zero hzero]
      exact hp
    · rw [reflect_of_zero hzero, hp]
  · refine ⟨⟨e.opposite, u, hu, fun p hp => ?_⟩, e.opposite, u, hu, fun p hp => ?_⟩
    · unfold Edge.opposite at hp
      rw [Edge.side_on, Edge.axis_on] at hp
      rw [reflect_of_single hne hothers, Rat.cast_neg]
      exact hp.neg
    · unfold Edge.opposite at hp
      rw [Edge.axis_on] at hp
      rw [reflect_of_single hne hothers, Rat.cast_neg, hp]

/-! ## §4. Offsets, shadows, hulls. -/

/-- How far a disc in the XY plane reaches on an edge. -/
def Edge.reach (r : ℚ) : Edge → ℚ
  | .left | .back => -r
  | .right | .front => r
  | .bottom | .top => 0

theorem offset_source {r : ℚ} (hr : 0 ≤ r) {delta : Option ℚ} {chamfer : Bool}
    {xs : List (Extents ℚ)} {e : Edge} {w : ℚ}
    (h : (Operator.offset (some r) delta chamfer).reading child xs e = .ok w) :
    ∃ u, child e = .ok u ∧ w = u + e.reach r := by
  have hgrown : Operator.grownReading r child e = .ok w := by
    have hif : (if 0 ≤ r then Operator.grownReading r child e else child e) = .ok w := h
    rwa [if_pos hr] at hif
  obtain ⟨u, hu, hw⟩ := Outcome.bind_eq_ok.mp hgrown
  refine ⟨u, hu, ?_⟩
  cases e <;> cases hw <;> simp [Edge.reach, sub_eq_add_neg]

theorem encloses_offset (I : Interpretation) {r : ℚ} (hr : 0 ≤ r) (delta : Option ℚ)
    (chamfer : Bool) (xs : List (Extents ℚ)) (h : Encloses child S) :
    Encloses ((Operator.offset (some r) delta chamfer).reading child xs)
      ((Operator.offset (some r) delta chamfer).act I S) := by
  have hact : (Operator.offset (some r) delta chamfer).act I S = grown r S := if_pos hr
  rw [hact]
  rintro e w hw q ⟨p, hp, hdisc, hz⟩
  obtain ⟨u, hu, rfl⟩ := offset_source hr hw
  -- A point of the disc is no farther away than `r` on either axis of the plane.
  have hreal : (0 : ℝ) ≤ r := by exact_mod_cast hr
  obtain ⟨hxlow, hxhigh⟩ : -(r : ℝ) ≤ q .x - p .x ∧ q .x - p .x ≤ r :=
    abs_le.mp (abs_le_of_sq_le_sq (by nlinarith [sq_nonneg (q .y - p .y)]) hreal)
  obtain ⟨hylow, hyhigh⟩ : -(r : ℝ) ≤ q .y - p .y ∧ q .y - p .y ≤ r :=
    abs_le.mp (abs_le_of_sq_le_sq (by nlinarith [sq_nonneg (q .x - p .x)]) hreal)
  have hstep : e.side.Within ((e.reach r : ℚ) : ℝ) (q e.axis - p e.axis) := by
    cases e <;> simp only [Edge.reach, Edge.axis, Edge.side, Side.Within, Rat.cast_neg,
      Rat.cast_zero] <;> linarith
  have hsum := (h e u hu p hp).add hstep
  rwa [← Rat.cast_add, add_sub_cancel] at hsum

theorem touches_offset (I : Interpretation) {r : ℚ} (hr : 0 ≤ r) (delta : Option ℚ)
    (chamfer : Bool) (xs : List (Extents ℚ)) (h : Touches child S) :
    Touches ((Operator.offset (some r) delta chamfer).reading child xs)
      ((Operator.offset (some r) delta chamfer).act I S) := by
  have hact : (Operator.offset (some r) delta chamfer).act I S = grown r S := if_pos hr
  rw [hact]
  constructor
  · obtain ⟨p, hp⟩ := h.1
    exact ⟨p, p, hp, by simpa using sq_nonneg (r : ℝ), rfl⟩
  · intro e w hw
    obtain ⟨u, hu, rfl⟩ := offset_source hr hw
    obtain ⟨p, hp, hon⟩ := h.2 e u hu
    -- The point on the edge of the disc that is straight outwards.
    refine ⟨Function.update p e.axis (p e.axis + e.reach r), ⟨p, hp, ?_⟩, ?_⟩
    · cases e <;> simp [Edge.axis, Edge.reach, Function.update] <;> positivity
    · rw [Function.update_self, Rat.cast_add, hon]

/-- Edges of a shadow are those of what casts it, and zero below and above. -/
theorem projection_source {cut : Bool} {xs : List (Extents ℚ)} {e : Edge} {w : ℚ}
    (h : (Operator.projection cut).reading child xs e = .ok w) :
    (e.axis = .z ∧ w = 0) ∨ (e.axis ≠ .z ∧ child e = .ok w) := by
  cases e <;> first
    | exact .inl ⟨rfl, (Except.ok.inj h).symm⟩
    | exact .inr ⟨nofun, h⟩

theorem shadow_apply {axis : Axis} (h : axis ≠ .z) (p : Point) : Point.shadow p axis = p axis := by
  cases axis with
  | x => rfl
  | y => rfl
  | z => exact absurd rfl h

theorem encloses_projection (I : Interpretation) (xs : List (Extents ℚ)) (h : Encloses child S) :
    Encloses ((Operator.projection false).reading child xs)
      ((Operator.projection false).act I S) := by
  rintro e w hw _ ⟨p, hp, rfl⟩
  rcases projection_source hw with ⟨haxis, rfl⟩ | ⟨haxis, hw⟩
  · rw [haxis, Rat.cast_zero]
    exact e.side.within_refl 0
  · rw [shadow_apply haxis]
    exact h e w hw p hp

theorem touches_projection (I : Interpretation) (xs : List (Extents ℚ)) (h : Touches child S) :
    Touches ((Operator.projection false).reading child xs)
      ((Operator.projection false).act I S) := by
  refine ⟨h.1.image _, fun e w hw => ?_⟩
  rcases projection_source hw with ⟨haxis, rfl⟩ | ⟨haxis, hw⟩
  · obtain ⟨p, hp⟩ := h.1
    refine ⟨_, Set.mem_image_of_mem _ hp, ?_⟩
    rw [haxis, Rat.cast_zero]
    rfl
  · obtain ⟨p, hp, hon⟩ := h.2 e w hw
    refine ⟨_, Set.mem_image_of_mem _ hp, ?_⟩
    rw [shadow_apply haxis, hon]

/-- What is not beyond an edge is a half-space, which is convex. -/
theorem Encloses.hull (h : Encloses r S) : Encloses r (convexHull ℝ S) := by
  intro e v hv
  have hlinear : IsLinearMap ℝ fun p : Point => p e.axis := ⟨fun _ _ => rfl, fun _ _ => rfl⟩
  have hconvex : Convex ℝ {p : Point | e.side.Within (v : ℝ) (p e.axis)} := by
    cases e.side with
    | min => exact convex_halfSpace_ge hlinear v
    | max => exact convex_halfSpace_le hlinear v
  exact convexHull_min (h e v hv) hconvex

theorem Touches.hull (h : Touches r S) : Touches r (convexHull ℝ S) := by
  refine ⟨h.1.mono (subset_convexHull ℝ S), fun e v hv => ?_⟩
  obtain ⟨p, hp, hon⟩ := h.2 e v hv
  exact ⟨p, subset_convexHull ℝ S hp, hon⟩

/-! ## §5. Operators. -/

namespace Operator

/-- Operators whose boxes are about points, as far as the box algebra goes. -/
def IsMeasured : Operator ℚ → Prop
  | .translate _ | .rotate _ | .scale _ | .mirror _ | .color .. | .hull | .minkowski | .render _ =>
    True
  | .offset (some r) _ _ => 0 ≤ r
  | .projection cut => cut = false
  | _ => False

end Operator

/-- Operators over the union of their operands keep enclosures. -/
theorem encloses_reading (I : Interpretation) {op : Operator ℚ} (hop : op.IsMeasured)
    (hsum : op ≠ .minkowski) (xs : List (Extents ℚ)) (h : Encloses child S) :
    Encloses (op.reading child xs) (op.act I S) := by
  cases op with
  | translate v => exact (carries_translate v xs).encloses h
  | rotate a => exact (carries_rotate a xs).encloses h
  | scale factors => exact (carries_scale factors xs).encloses h
  | mirror normal => exact (carries_mirror normal xs).encloses h
  | offset r delta chamfer =>
    cases r with
    | none => exact hop.elim
    | some r => exact encloses_offset I hop delta chamfer xs h
  | projection cut =>
    obtain rfl : cut = false := hop
    exact encloses_projection I xs h
  | color name alpha => exact h
  | render convexity => exact h
  | hull => exact h.hull
  | minkowski => exact absurd rfl hsum
  | linearExtrude height options => exact hop.elim
  | rotateExtrude angle convexity segments => exact hop.elim
  | slide offset => exact hop.elim

/-- Operators over the union of their operands reach all known edges. -/
theorem touches_reading (I : Interpretation) {op : Operator ℚ} (hop : op.IsMeasured)
    (hsum : op ≠ .minkowski) (xs : List (Extents ℚ)) (h : Touches child S) :
    Touches (op.reading child xs) (op.act I S) := by
  cases op with
  | translate v => exact (carries_translate v xs).touches h
  | rotate a => exact (carries_rotate a xs).touches h
  | scale factors => exact (carries_scale factors xs).touches h
  | mirror normal => exact (carries_mirror normal xs).touches h
  | offset r delta chamfer =>
    cases r with
    | none => exact hop.elim
    | some r => exact touches_offset I hop delta chamfer xs h
  | projection cut =>
    obtain rfl : cut = false := hop
    exact touches_projection I xs h
  | color name alpha => exact h
  | render convexity => exact h
  | hull => exact h.hull
  | minkowski => exact absurd rfl hsum
  | linearExtrude height options => exact hop.elim
  | rotateExtrude angle convexity segments => exact hop.elim
  | slide offset => exact hop.elim

end SolidTree
