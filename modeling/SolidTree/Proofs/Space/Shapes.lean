/-
  SolidTree.Proofs.Space.Shapes
  ─────────────────────────────
  **THE EDGES OF LEAVES.**

  Most leaves are centered on the origin and reach half of their size to
  either side; a cylinder is widest at one of its ends.  The other leaves
  that are measured are given by points.  They are within the hull of their
  corners, and they reach the outermost of the points that they are given
  if that is a corner.

  Main results:
    * `encloses_shape` — no point of a leaf is beyond its edges
    * `touches_shape`  — a leaf that uses all of its points has one on each
-/
import SolidTree.Proofs.Space.Enclosure

namespace SolidTree.Primitive

variable {I : Interpretation} {s : Primitive ℚ}

/-! ## §1. Leaves that are measured. -/

/-- The leaf has edges in closed form, and no size is negative. -/
def IsMeasured : Primitive ℚ → Prop
  | .cube size => ∀ axis, 0 ≤ size.get axis
  | .cylinder height diameter topDiameter _ =>
    0 ≤ height ∧ 0 ≤ diameter ∧ ∀ top, topDiameter = some top → 0 ≤ top
  | .sphere diameter _ | .circle diameter _ => 0 ≤ diameter
  | .square width depth => 0 ≤ width ∧ 0 ≤ depth
  | .polygon points _ _ => points ≠ []
  | .polyhedron points _ _ => points ≠ []
  | .text _ | .imported .. => False

/-- The points that a leaf is given. -/
def given : Primitive ℚ → List Point
  | .polygon points _ _ => points.map Vec2.point
  | .polyhedron points _ _ => points.map Vec3.point
  | _ => []

/-- Every point that the leaf is given is a corner of it. -/
def UsesPoints (s : Primitive ℚ) : Prop :=
  ∀ corners, s.corners? = some corners → ∀ c ∈ s.given, c ∈ corners

/-- The lengths of a centered leaf on the axes. -/
def size? : Primitive ℚ → Option (Axis → ℚ)
  | .cube size => some size.get
  | .cylinder height diameter topDiameter _ => some fun
    | .z => height
    | _ => max diameter (topDiameter.getD 0)
  | .sphere diameter _ => some fun _ => diameter
  | .circle diameter _ => some fun
    | .z => 0
    | _ => diameter
  | .square width depth => some fun
    | .x => width
    | .y => depth
    | .z => 0
  | _ => none

/-- A measured leaf is centered or given by points. -/
theorem size?_or_corners? (h : s.IsMeasured) :
    (∃ size, s.size? = some size) ∨ s.size? = none ∧ ∃ corners, s.corners? = some corners := by
  cases s with
  | cube | cylinder | sphere | circle | square => exact .inl ⟨_, rfl⟩
  | polygon points paths convexity => cases paths <;> exact .inr ⟨rfl, _, rfl⟩
  | polyhedron => exact .inr ⟨rfl, _, rfl⟩
  | text | imported => exact h.elim

/-! ## §2. Centered leaves. -/

/-- Half of a centered length, to the side of the edge. -/
theorem cast_centered (e : Edge) (length : ℚ) :
    ((centered e length : ℚ) : ℝ) = match e.side with
      | .min => -((length : ℝ) / 2)
      | .max => (length : ℝ) / 2 := by
  have htwo : (2.0 : ℚ) = 2 := by norm_num
  unfold centered
  cases e.side with
  | min =>
    show ((-length / 2.0 : ℚ) : ℝ) = -((length : ℝ) / 2)
    rw [htwo]
    push_cast
    ring
  | max =>
    show ((length / 2.0 : ℚ) : ℝ) = (length : ℝ) / 2
    rw [htwo]
    push_cast
    rfl

theorem within_centered {e : Edge} {length : ℚ} {x : ℝ} (h : |x| ≤ length / 2) :
    e.side.Within ((centered e length : ℚ) : ℝ) x := by
  obtain ⟨hlow, hhigh⟩ := abs_le.mp h
  rw [cast_centered]
  cases e.side with
  | min => exact hlow
  | max => exact hhigh

theorem sq_centered (e : Edge) (length : ℚ) :
    ((centered e length : ℚ) : ℝ) ^ 2 = ((length : ℝ) / 2) ^ 2 := by
  rw [cast_centered]
  cases e.side with
  | min => exact neg_sq _
  | max => rfl

/-- The edges of a centered leaf are half of its lengths away. -/
theorem reading_of_size {size : Axis → ℚ} (h : s.size? = some size) (e : Edge) :
    s.reading e = .ok (centered e (size e.axis)) := by
  have hzero : centered e (0 : ℚ) = 0 := by
    unfold centered
    cases e.side <;> norm_num
  cases s with
  | cube =>
    cases h
    rfl
  | sphere =>
    cases h
    rfl
  | cylinder height diameter topDiameter segments =>
    cases h
    cases e <;> simp only [reading, Edge.axis, Rational.greater_eq_max]
  | circle =>
    cases h
    cases e <;> simp only [reading, flat, Edge.axis, hzero]
  | square =>
    cases h
    cases e <;> simp only [reading, flat, Edge.axis, hzero]
  | polygon | polyhedron | text | imported => cases h

theorem abs_centered (e : Edge) {length : ℚ} (h : 0 ≤ length) :
    |((centered e length : ℚ) : ℝ)| = length / 2 := by
  have hreal : (0 : ℝ) ≤ length := by exact_mod_cast h
  have hhalf : (0 : ℝ) ≤ length / 2 := by linarith
  rw [cast_centered]
  cases e.side with
  | min => exact (abs_neg _).trans (abs_of_nonneg hhalf)
  | max => exact abs_of_nonneg hhalf

/-- The radius of a cylinder is nowhere larger than at the wider end. -/
theorem radius_le {d d' t : ℝ} (h0 : 0 ≤ t) (h1 : t ≤ 1) :
    ((1 - t) * d + t * d') / 2 ≤ max d d' / 2 := by
  have hd : (1 - t) * d ≤ (1 - t) * max d d' :=
    mul_le_mul_of_nonneg_left (le_max_left d d') (by linarith)
  have hd' : t * d' ≤ t * max d d' := mul_le_mul_of_nonneg_left (le_max_right d d') h0
  linarith

/-- A cylinder without a diameter of its own at the top is as wide there as below. -/
theorem width_eq {diameter : ℚ} (h : 0 ≤ diameter) (topDiameter : Option ℚ) :
    max diameter (topDiameter.getD 0) = max diameter (topDiameter.getD diameter) := by
  cases topDiameter with
  | none => simp [h]
  | some top => rfl

theorem top_nonneg {diameter : ℚ} (h : 0 ≤ diameter) {topDiameter : Option ℚ}
    (htop : ∀ top, topDiameter = some top → 0 ≤ top) : 0 ≤ topDiameter.getD diameter := by
  cases topDiameter with
  | none => exact h
  | some top => exact htop top rfl

/-- No point of a centered leaf is farther than half of the length from the origin. -/
theorem abs_le_of_size (hs : s.IsMeasured) {size : Axis → ℚ} (h : s.size? = some size)
    {p : Point} (hp : p ∈ s.points I) (axis : Axis) : |p axis| ≤ size axis / 2 := by
  cases s with
  | cube size =>
    cases h
    exact hp axis
  | sphere d =>
    cases h
    have hball : p .x ^ 2 + p .y ^ 2 + p .z ^ 2 ≤ ((d : ℝ) / 2) ^ 2 := hp
    have hd : (0 : ℝ) ≤ d := by exact_mod_cast hs
    refine abs_le_of_sq_le_sq ?_ (by linarith)
    cases axis <;> nlinarith [sq_nonneg (p .x), sq_nonneg (p .y), sq_nonneg (p .z)]
  | circle d =>
    cases h
    obtain ⟨hdisc, hz⟩ : p .x ^ 2 + p .y ^ 2 ≤ ((d : ℝ) / 2) ^ 2 ∧ p .z = 0 := hp
    have hd : (0 : ℝ) ≤ d := by exact_mod_cast hs
    cases axis with
    | x => exact abs_le_of_sq_le_sq (by nlinarith [sq_nonneg (p .y)]) (by linarith)
    | y => exact abs_le_of_sq_le_sq (by nlinarith [sq_nonneg (p .x)]) (by linarith)
    | z => simp [hz]
  | square width depth =>
    cases h
    obtain ⟨hx, hy, hz⟩ := hp
    cases axis with
    | x => exact hx
    | y => exact hy
    | z => simp [hz]
  | cylinder height d top segments =>
    cases h
    obtain ⟨hheight, hd, htop⟩ := hs
    obtain ⟨t, h0, h1, hz, hdisc⟩ := hp
    have hheight' : (0 : ℝ) ≤ height := by exact_mod_cast hheight
    have hbottom : (0 : ℝ) ≤ d := by exact_mod_cast hd
    have htop' : (0 : ℝ) ≤ (top.getD d : ℚ) := by exact_mod_cast top_nonneg hd htop
    have hradius : 0 ≤ ((1 - t) * d + t * (top.getD d : ℚ)) / 2 := by
      have := mul_nonneg (sub_nonneg.mpr h1) hbottom
      have := mul_nonneg h0 htop'
      linarith
    -- On X and Y alike: a point at height `t` is within the radius there.
    have hround : ∀ x : ℝ, x ^ 2 ≤ (((1 - t) * d + t * (top.getD d : ℚ)) / 2) ^ 2 →
        |x| ≤ ((max d (top.getD 0) : ℚ) : ℝ) / 2 := by
      intro x hx
      rw [width_eq hd, Rat.cast_max]
      exact (abs_le_of_sq_le_sq hx hradius).trans (radius_le h0 h1)
    cases axis with
    | x => exact hround _ (by linarith [sq_nonneg (p .y)])
    | y => exact hround _ (by linarith [sq_nonneg (p .x)])
    | z =>
      -- From the bottom at `t = 0` to the top at `t = 1`.
      rw [hz, abs_le]
      constructor <;> nlinarith
  | polygon | polyhedron | text | imported => cases h

/-- The point on an axis with this coordinate. -/
def onAxis (axis : Axis) (x : ℝ) : Point := Function.update 0 axis x

theorem onAxis_self (axis : Axis) (x : ℝ) : onAxis axis x axis = x := Function.update_self ..

theorem onAxis_of_ne {axis b : Axis} (h : b ≠ axis) (x : ℝ) : onAxis axis x b = 0 :=
  Function.update_of_ne h ..

/-- The squares of the coordinates of a point on an axis. -/
theorem onAxis_sq (axis : Axis) (x : ℝ) :
    onAxis axis x .x ^ 2 + onAxis axis x .y ^ 2 + onAxis axis x .z ^ 2 = x ^ 2 := by
  cases axis <;> simp [onAxis, Function.update]

/-- The point on the axis of an edge that is on the edge is between all edges. -/
theorem abs_onAxis_le {size : Axis → ℚ} (hsize : ∀ axis, 0 ≤ size axis) (e : Edge)
    (axis : Axis) :
    |onAxis e.axis ((centered e (size e.axis) : ℚ) : ℝ) axis| ≤ (size axis : ℝ) / 2 := by
  by_cases haxis : axis = e.axis
  · rw [haxis, onAxis_self, abs_centered e (hsize e.axis)]
  · have hreal : (0 : ℝ) ≤ size axis := by exact_mod_cast hsize axis
    rw [onAxis_of_ne haxis, abs_zero]
    linarith

/-- A cylinder is as wide as it gets at one of its ends. -/
theorem exists_widest (d d' : ℝ) :
    ∃ t : ℝ, 0 ≤ t ∧ t ≤ 1 ∧ (1 - t) * d + t * d' = max d d' := by
  rcases le_total d d' with h | h
  · exact ⟨1, zero_le_one, le_refl 1, by rw [max_eq_right h]; ring⟩
  · exact ⟨0, le_refl 0, zero_le_one, by rw [max_eq_left h]; ring⟩

/-- A cylinder has a point on each edge: in the middle of an end, or on the rim of the
wider one. -/
theorem cylinder_exists_on_edge {height d : ℚ} {top : Option ℚ} {segments : UInt32} (hd : 0 ≤ d)
    {size : Axis → ℚ} (h : (cylinder height d top segments).size? = some size) (e : Edge) :
    ∃ p ∈ (cylinder height d top segments).points I,
      p e.axis = ((centered e (size e.axis) : ℚ) : ℝ) := by
  cases h
  by_cases haxis : e.axis = .z
  · obtain ⟨t, h0, h1, ht⟩ : ∃ t : ℝ, 0 ≤ t ∧ t ≤ 1 ∧
        ((centered e height : ℚ) : ℝ) = height * (t - 1 / 2) := by
      rw [cast_centered]
      cases e.side with
      | min => exact ⟨0, le_refl 0, zero_le_one, by ring⟩
      | max => exact ⟨1, zero_le_one, le_refl 1, by ring⟩
    rw [haxis]
    refine ⟨onAxis .z (centered e height : ℚ), ⟨t, h0, h1, ?_, ?_⟩, onAxis_self _ _⟩
    · rw [onAxis_self, ht]
    · rw [onAxis_of_ne (by decide), onAxis_of_ne (by decide)]
      nlinarith [sq_nonneg (((1 - t) * d + t * (top.getD d : ℚ)) / 2)]
  · obtain ⟨t, h0, h1, ht⟩ := exists_widest d (top.getD d : ℚ)
    have hsize : (fun | .z => height | _ => max d (top.getD 0) : Axis → ℚ) e.axis
        = max d (top.getD d) := by
      rw [← width_eq hd]
      revert haxis
      cases e.axis <;> intro haxis <;> first | rfl | exact absurd rfl haxis
    rw [hsize]
    -- A point of the rim: the radius along the axis of the edge, at the height of that end.
    refine ⟨Function.update (onAxis e.axis (centered e (max d (top.getD d)) : ℚ)) .z
      (height * (t - 1 / 2)), ⟨t, h0, h1, Function.update_self .., ?_⟩, ?_⟩
    · have hsquares := onAxis_sq e.axis ((centered e (max d (top.getD d)) : ℚ) : ℝ)
      rw [sq_centered, Rat.cast_max, onAxis_of_ne (Ne.symm haxis)] at hsquares
      rw [Function.update_of_ne (by decide), Function.update_of_ne (by decide), ht]
      linarith
    · rw [Function.update_of_ne haxis, onAxis_self]

/-- A centered leaf has a point on each edge. -/
theorem exists_on_edge (hs : s.IsMeasured) {size : Axis → ℚ} (h : s.size? = some size)
    (e : Edge) : ∃ p ∈ s.points I, p e.axis = ((centered e (size e.axis) : ℚ) : ℝ) := by
  have hself := onAxis_self e.axis ((centered e (size e.axis) : ℚ) : ℝ)
  have hsquares := onAxis_sq e.axis ((centered e (size e.axis) : ℚ) : ℝ)
  rw [sq_centered] at hsquares
  cases s with
  | cube size =>
    cases h
    exact ⟨_, abs_onAxis_le hs e, hself⟩
  | sphere d =>
    cases h
    -- All of the distance from the origin is along one axis.
    exact ⟨_, hsquares.le, hself⟩
  | circle d =>
    cases h
    have hsize : ∀ axis : Axis, (0 : ℚ) ≤ (fun | .z => 0 | _ => d : Axis → ℚ) axis := by
      intro axis
      cases axis <;> first | exact hs | exact le_refl 0
    have hbetween := abs_onAxis_le hsize e
    -- The height of a flat leaf is zero, so the point is in the plane.
    have hz := hbetween .z
    simp only [Rat.cast_zero, zero_div, abs_nonpos_iff] at hz
    have hradius : (((fun | .z => 0 | _ => d : Axis → ℚ) e.axis : ℝ) / 2) ^ 2
        ≤ ((d : ℝ) / 2) ^ 2 := by
      cases e.axis with
      | x | y => exact le_refl _
      | z => simpa using sq_nonneg ((d : ℝ) / 2)
    refine ⟨_, ⟨?_, hz⟩, hself⟩
    nlinarith
  | square width depth =>
    cases h
    have hsize : ∀ axis : Axis,
        (0 : ℚ) ≤ (fun | .x => width | .y => depth | .z => 0 : Axis → ℚ) axis := by
      intro axis
      cases axis <;> first | exact hs.1 | exact hs.2 | exact le_refl 0
    have hbetween := abs_onAxis_le hsize e
    have hz := hbetween .z
    simp only [Rat.cast_zero, zero_div, abs_nonpos_iff] at hz
    exact ⟨_, ⟨hbetween .x, hbetween .y, hz⟩, hself⟩
  | cylinder height d top segments => exact cylinder_exists_on_edge hs.2.1 h e
  | polygon | polyhedron | text | imported => cases h

/-! ## §3. Leaves that are given by points. -/

/-- The corners are some of the points. -/
theorem mem_given_of_corner {corners : List Point} (h : s.corners? = some corners) :
    ∀ c ∈ corners, c ∈ s.given := by
  have halong : ∀ {β : Type} (points : List β) (paths : List (List UInt64)),
      ∀ c ∈ pointsAlong points paths, c ∈ points := by
    intro β points paths c hc
    obtain ⟨i, -, hi⟩ := List.mem_filterMap.mp hc
    exact List.mem_of_getElem? hi
  intro c hc
  cases s with
  | polygon points paths convexity =>
    cases paths with
    | none =>
      cases h
      exact hc
    | some paths =>
      cases h
      obtain ⟨b, hb, rfl⟩ := List.mem_map.mp hc
      exact List.mem_map_of_mem (halong points paths b hb)
  | polyhedron points faces convexity =>
    cases h
    obtain ⟨b, hb, rfl⟩ := List.mem_map.mp hc
    exact List.mem_map_of_mem (halong points faces b hb)
  | cube | cylinder | sphere | circle | square | text | imported => cases h

theorem given_ne_nil (hs : s.IsMeasured) (h : s.size? = none) : s.given ≠ [] := by
  cases s with
  | polygon points paths convexity => exact fun hnil => hs (List.map_eq_nil_iff.mp hnil)
  | polyhedron points faces convexity => exact fun hnil => hs (List.map_eq_nil_iff.mp hnil)
  | cube | cylinder | sphere | circle | square => cases h
  | text | imported => exact hs.elim

/-- The outermost of the coordinates of some points. -/
theorem extreme_spec {β : Type} {points : List β} (hne : points ≠ []) (coordinate : β → ℚ)
    (side : Side) :
    (∃ c ∈ points, coordinate c = extreme side (points.map coordinate)) ∧
      ∀ c ∈ points, side.Within (extreme side (points.map coordinate)) (coordinate c) := by
  have hne' : points.map coordinate ≠ [] := by simpa using hne
  obtain ⟨hmem, hwithin⟩ := Rational.isOutermost_extreme side hne'
  exact ⟨List.mem_map.mp hmem, fun c hc => hwithin _ (List.mem_map_of_mem hc)⟩

/-- One of the points is on the edge, and none is beyond it. -/
theorem given_spec (hs : s.IsMeasured) (h : s.size? = none) {e : Edge} {v : ℚ}
    (hv : s.reading e = .ok v) :
    (∃ c ∈ s.given, c e.axis = (v : ℝ)) ∧ ∀ c ∈ s.given, e.side.Within (v : ℝ) (c e.axis) := by
  -- For polygons and polyhedra alike: points of any kind, with a coordinate on the axis.
  have key : ∀ {β : Type} {points : List β} (point : β → Point) (coordinate : β → ℚ),
      points ≠ [] → (∀ c, point c e.axis = (coordinate c : ℝ)) →
      v = extreme e.side (points.map coordinate) →
      (∃ c ∈ points.map point, c e.axis = (v : ℝ)) ∧
        ∀ c ∈ points.map point, e.side.Within (v : ℝ) (c e.axis) := by
    rintro β points point coordinate hne hcoordinate rfl
    obtain ⟨⟨b, hb, hon⟩, hwithin⟩ := extreme_spec hne coordinate e.side
    constructor
    · exact ⟨point b, List.mem_map_of_mem hb, by rw [hcoordinate, hon]⟩
    · intro c hc
      obtain ⟨b, hb, rfl⟩ := List.mem_map.mp hc
      rw [hcoordinate]
      exact Side.within_cast.mpr (hwithin b hb)
  cases s with
  | polygon points paths convexity =>
    have hpoints : points ≠ [] := hs
    have hisEmpty : points.isEmpty = false := by simpa using hpoints
    cases haxis : e.axis with
    | x =>
      simp only [reading, haxis, hisEmpty] at hv
      rw [haxis] at key
      exact key Vec2.point Vec2.x hpoints (fun c => rfl) (Except.ok.inj hv).symm
    | y =>
      simp only [reading, haxis, hisEmpty] at hv
      rw [haxis] at key
      exact key Vec2.point Vec2.y hpoints (fun c => rfl) (Except.ok.inj hv).symm
    | z =>
      simp only [reading, haxis] at hv
      rw [haxis] at key
      obtain ⟨⟨c, -, hzero⟩, -⟩ := extreme_spec hpoints (fun _ => (0 : ℚ)) e.side
      refine key Vec2.point (fun _ => 0) hpoints (fun c => Rat.cast_zero.symm) ?_
      rw [← hzero]
      exact (Except.ok.inj hv).symm
  | polyhedron points faces convexity =>
    have hpoints : points ≠ [] := hs
    refine key Vec3.point (·.get e.axis) hpoints (fun c => rfl) ?_
    have hisEmpty : points.isEmpty = false := by simpa using hpoints
    simp only [reading, hisEmpty] at hv
    exact (Except.ok.inj hv).symm
  | cube | cylinder | sphere | circle | square => cases h
  | text | imported => exact hs.elim

/-! ## §4. All leaves. -/

/-- **No point of a measured leaf is beyond its edges.** -/
theorem encloses_shape (I : Interpretation) (hs : s.IsMeasured) :
    Encloses s.reading (s.points I) := by
  rcases size?_or_corners? hs with ⟨size, hsize⟩ | ⟨hsize, corners, hcorners⟩
  · intro e v hv p hp
    rw [reading_of_size hsize] at hv
    obtain rfl := Except.ok.inj hv
    exact within_centered (abs_le_of_size hs hsize hp e.axis)
  · have hpoints : s.points I = I.shape s := by
      cases s <;> first | rfl | cases hsize
    have henclosed : Encloses s.reading {c | c ∈ corners} := fun e v hv c hc =>
      (given_spec hs hsize hv).2 c (mem_given_of_corner hcorners c hc)
    rw [hpoints]
    exact henclosed.hull.subset (I.subset_hull hcorners)

/-- **A measured leaf that uses all of its points has one on each edge.** -/
theorem touches_shape (I : Interpretation) (hs : s.IsMeasured) (huses : s.UsesPoints) :
    Touches s.reading (s.points I) := by
  rcases size?_or_corners? hs with ⟨size, hsize⟩ | ⟨hsize, corners, hcorners⟩
  · obtain ⟨p, hp, -⟩ := exists_on_edge hs hsize .left
    refine ⟨⟨p, hp⟩, fun e v hv => ?_⟩
    rw [reading_of_size hsize] at hv
    obtain rfl := Except.ok.inj hv
    exact exists_on_edge hs hsize e
  · have hpoints : s.points I = I.shape s := by
      cases s <;> first | rfl | cases hsize
    have hmem : ∀ c ∈ s.given, c ∈ s.points I := by
      intro c hc
      rw [hpoints]
      exact I.corner_mem hcorners c (huses corners hcorners c hc)
    obtain ⟨c, hc⟩ := List.exists_mem_of_ne_nil _ (given_ne_nil hs hsize)
    refine ⟨⟨c, hmem c hc⟩, fun e v hv => ?_⟩
    obtain ⟨c, hc, hon⟩ := (given_spec hs hsize hv).1
    exact ⟨c, hmem c hc, hon⟩

end SolidTree.Primitive
