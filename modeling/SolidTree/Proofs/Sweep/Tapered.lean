/-
  SolidTree.Proofs.Sweep.Tapered
  ──────────────────────────────
  **THE SIDES OF A TAPERED EXTRUSION.**

  An extrusion that does not turn starts from its profile and ends in the
  profile scaled about the Z axis.  Its sides are measured on the face that it
  ends in.  Where the scaling draws an edge inwards, the face that it starts
  from reaches farther:

      face f h S                — a flat set scaled by `f` and lifted to `h`
      o.firstFace, o.lastFace   — the two faces of an extrusion
      coordinates axis S        — what a set of points shows on an axis

  Main results:
    * `linearExtrude_sides` — the sides that are measured are those of the last
      face, and those of both faces just where no edge is drawn inwards
    * `linearExtrude_sides_drawnIn` — a roof that is measured at its top
-/
import SolidTree.Proofs.Space.Point
import SolidTree.Proofs.Sweep.Sector

namespace SolidTree

/-! ## §1. Faces. -/

/-- What a set of points shows on an axis. -/
def coordinates (axis : Axis) (S : Set Point) : Set ℝ := (fun p => p axis) '' S

/-- A flat set of points scaled about the Z axis and lifted. -/
def face (factor height : ℝ) (S : Set Point) : Set Point :=
  (fun p => fun
    | .x => p .x * factor
    | .y => p .y * factor
    | .z => p .z + height) '' S

namespace ExtrudeOptions

/-- Where an extrusion starts. -/
def start (o : ExtrudeOptions ℚ) (height : ℚ) : ℚ := if o.center then -(height / 2) else 0

/-- The face that an extrusion starts from: the profile itself. -/
def firstFace (o : ExtrudeOptions ℚ) (height : ℚ) (S : Set Point) : Set Point :=
  face 1 (o.start height) S

/-- The face that an extrusion ends in: the scaled profile. -/
def lastFace (o : ExtrudeOptions ℚ) (height : ℚ) (S : Set Point) : Set Point :=
  face o.scale (o.start height + height) S

end ExtrudeOptions

theorem coordinates_face {axis : Axis} (haxis : axis ≠ .z) (factor height : ℝ) (S : Set Point) :
    coordinates axis (face factor height S) = (· * factor) '' coordinates axis S := by
  unfold coordinates face
  rw [Set.image_image, Set.image_image]
  cases axis with
  | z => exact absurd rfl haxis
  | _ => rfl

theorem coordinates_union (axis : Axis) (S T : Set Point) :
    coordinates axis (S ∪ T) = coordinates axis S ∪ coordinates axis T :=
  Set.image_union _ S T

/-! ## §2. Extrema. -/

namespace Side

variable {s : Side} {X Y : Set ℝ} {v w : ℝ}

theorem IsExtremum.mul_nonneg (h : s.IsExtremum X v) {factor : ℝ} (hfactor : 0 ≤ factor) :
    s.IsExtremum ((· * factor) '' X) (v * factor) := by
  obtain ⟨hmem, hwithin⟩ := isExtremum_iff.mp h
  refine isExtremum_iff.mpr ⟨Set.mem_image_of_mem _ hmem, ?_⟩
  rintro _ ⟨x, hx, rfl⟩
  exact (hwithin x hx).mul_nonneg hfactor

/-- The extremum of two sets is the outer one of the two extrema. -/
theorem IsExtremum.union {v w : ℚ} (hX : s.IsExtremum X v) (hY : s.IsExtremum Y w) :
    s.IsExtremum (X ∪ Y) (Extents.outer s v w : ℚ) := by
  obtain ⟨hv, hX⟩ := isExtremum_iff.mp hX
  obtain ⟨hw, hY⟩ := isExtremum_iff.mp hY
  obtain ⟨hone, houter, houter'⟩ := Rational.outer_spec s v w
  refine isExtremum_iff.mpr ⟨?_, ?_⟩
  · rcases hone with hone | hone <;> rw [hone]
    · exact .inl hv
    · exact .inr hw
  · rintro x (hx | hx)
    · exact (within_cast.mpr houter).trans (hX x hx)
    · exact (within_cast.mpr houter').trans (hY x hx)

/-- One of two extrema is that of both sets just if it is not inside of the other one. -/
theorem IsExtremum.union_iff (hX : s.IsExtremum X v) (hY : s.IsExtremum Y w) :
    s.IsExtremum (X ∪ Y) w ↔ s.Within w v := by
  obtain ⟨hv, hX⟩ := isExtremum_iff.mp hX
  obtain ⟨hw, hY⟩ := isExtremum_iff.mp hY
  rw [isExtremum_iff]
  constructor
  · rintro ⟨-, hwithin⟩
    exact hwithin v (.inl hv)
  · intro hwv
    refine ⟨.inr hw, ?_⟩
    rintro x (hx | hx)
    · exact hwv.trans (hX x hx)
    · exact hY x hx

end Side

/-! ## §3. Sides. -/

namespace ExtrudeOptions

variable (o : ExtrudeOptions ℚ) (height : ℚ) {e : Edge} (he : e.axis ≠ .z) {S : Set Point} {v : ℚ}
  (hv : e.side.IsExtremum (coordinates e.axis S) v)

include he hv

theorem isExtremum_firstFace :
    e.side.IsExtremum (coordinates e.axis (o.firstFace height S)) v := by
  unfold firstFace
  rw [coordinates_face he]
  simpa only [mul_one, Set.image_id'] using hv

theorem isExtremum_lastFace (hscale : 0 ≤ o.scale) :
    e.side.IsExtremum (coordinates e.axis (o.lastFace height S)) (v * o.scale : ℚ) := by
  unfold lastFace
  rw [coordinates_face he, Rat.cast_mul]
  exact hv.mul_nonneg (by exact_mod_cast hscale)

end ExtrudeOptions

/-- A side of an extrusion that does not turn is the one of its profile, scaled. -/
theorem Operator.get_linearExtrude {height : ℚ} {o : ExtrudeOptions ℚ} (htwist : o.twist = 0)
    {xs : List (Extents ℚ)} (hne : xs ≠ []) {e : Edge} (he : e.axis ≠ .z) :
    ((Operator.linearExtrude height o).extents xs).get e
      = ((Extents.union xs).get e).map (· * o.scale) := by
  have htwist' : (o.twist == 0) = true := beq_iff_eq.mpr htwist
  rw [get_extents _ hne]
  show extrudedReading height o (Extents.union xs).get e = _
  unfold extrudedReading
  simp only [htwist', if_true]
  cases e with
  | bottom | top => exact absurd rfl he
  | _ => rfl

/-- **The sides of a tapered extrusion.** A side of an extrusion that does not turn, to a scale
that is not negative, is the one of the face that it ends in. The extremum of both of its faces is
the outer one of the profile's and that, so the side is exact just if the scaling does not draw it
inwards. -/
theorem linearExtrude_sides (tag : Tag) (height : ℚ) {o : ExtrudeOptions ℚ} (htwist : o.twist = 0)
    (hscale : 0 ≤ o.scale) {profile : List (Node ℚ)} (hne : profile ≠ []) {e : Edge}
    (he : e.axis ≠ .z) {v : ℚ} (hv : (Extents.union (profile.map Node.extents)).get e = .ok v) :
    (Node.apply tag (.linearExtrude height o) profile).extents.get e = .ok (v * o.scale) ∧
      ∀ S : Set Point, e.side.IsExtremum (coordinates e.axis S) v →
        e.side.IsExtremum (coordinates e.axis (o.lastFace height S)) (v * o.scale : ℚ) ∧
        e.side.IsExtremum (coordinates e.axis (o.firstFace height S ∪ o.lastFace height S))
          (Extents.outer e.side v (v * o.scale) : ℚ) ∧
        (e.side.IsExtremum (coordinates e.axis (o.firstFace height S ∪ o.lastFace height S))
          (v * o.scale : ℚ) ↔ e.side.Within (v * o.scale) v) := by
  constructor
  · rw [Node.extents_apply, Operator.get_linearExtrude htwist (by simpa using hne) he, hv]
    rfl
  · intro S hS
    have hfirst := o.isExtremum_firstFace height he hS
    have hlast := o.isExtremum_lastFace height he hS hscale
    rw [coordinates_union]
    refine ⟨hlast, hfirst.union hlast, ?_⟩
    rw [hfirst.union_iff hlast, Side.within_cast]

/-! A roof over a square off the origin, and one over a square around the origin. -/

/-- To half the size, from the floor up. -/
def halved : ExtrudeOptions ℚ where
  center := false
  convexity := 10
  twist := 0
  slices := none
  scale := 1 / 2

/-- A square of side two around the origin. -/
def paving : Node ℚ := .leaf {} (.square 2 2)

/-- The same square, away from the Z axis. -/
def farPaving : Node ℚ := .apply {} (.translate ⟨2, 0, 0⟩) [paving]

/-- The points of the square that is away from the axis. -/
def farSquare : Set Point := {p | |p .x - (2 : ℚ)| ≤ 1 ∧ |p .y| ≤ 1 ∧ p .z = 0}

/-- The left side of a roof over the square that is away from the axis is that of both faces. -/
theorem linearExtrude_sides_farPaving :
    (Extents.union ([farPaving].map Node.extents)).get .left = .ok 1 ∧
      Side.min.IsExtremum (coordinates .x farSquare) (1 : ℚ) ∧
      (Node.apply {} (.linearExtrude 3 halved) [farPaving]).extents.get .left = .ok (1 / 2) ∧
      Side.min.IsExtremum
        (coordinates .x (halved.firstFace 3 farSquare ∪ halved.lastFace 3 farSquare))
        (1 / 2 : ℚ) := by
  have hleft : (Extents.union ([farPaving].map Node.extents)).get .left = .ok 1 := by
    decide +kernel
  have hsquare : Side.min.IsExtremum (coordinates .x farSquare) (1 : ℚ) := by
    rw [Side.isExtremum_iff]
    refine ⟨⟨fun axis => (⟨1, 0, 0⟩ : Vec3 ℚ).get axis, ⟨?_, ?_, ?_⟩, rfl⟩, ?_⟩
    · norm_num [Vec3.get]
    · norm_num [Vec3.get]
    · norm_num [Vec3.get]
    · rintro _ ⟨p, ⟨hp, -, -⟩, rfl⟩
      show ((1 : ℚ) : ℝ) ≤ p .x
      push_cast at hp ⊢
      linarith [(abs_le.mp hp).1]
  have hhalf : (1 : ℚ) * halved.scale = 1 / 2 := by norm_num [halved]
  obtain ⟨hread, hfaces⟩ := linearExtrude_sides {} 3 (o := halved) rfl (by norm_num [halved])
    (List.cons_ne_nil farPaving []) (e := .left) (by decide) hleft
  rw [hhalf] at hread hfaces
  refine ⟨hleft, hsquare, hread, (hfaces farSquare hsquare).2.2.mpr ?_⟩
  show (1 / 2 : ℚ) ≤ 1
  norm_num

/-- **A roof is measured at its top.** The square around the origin starts at -1, and so do both
faces of the roof over it, which is said to start at -1/2. -/
theorem linearExtrude_sides_drawnIn :
    halved.twist = 0 ∧ 0 ≤ halved.scale ∧
      (Extents.union ([paving].map Node.extents)).box = .ok ⟨⟨-1, -1, 0⟩, ⟨1, 1, 0⟩⟩ ∧
      Extents.outer .min (-1 : ℚ) (-1 * halved.scale) = -1 ∧
      (Node.apply {} (.linearExtrude 1 halved) [paving]).extents.get .left = .ok (-1 / 2) := by
  refine ⟨?_, ?_, ?_, ?_, ?_⟩ <;> decide +kernel

end SolidTree
