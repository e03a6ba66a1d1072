/-
  SolidTree.Proofs.Placement.Extrusion
  ────────────────────────────────────
  **EXTRUSIONS COVER THEIR SPAN.**

  An extrusion is placed by one of its ends.  The other end is where it has
  to be because the length on the axis is known: it is the height of the
  extrusion, and neither quarter turns nor translations change it, whatever
  is known of the other axes.

      x.Fills axis low length   — both edges on the axis are known, and so far
                                  apart

  Main results:
    * `exists_align_edge`    — an edge that is known can be put anywhere
    * `extrudeAlong_covers`  — an extrusion along an axis covers its span
-/
import SolidTree.Proofs.Placement.Alignment
import SolidTree.Proofs.Rotation.Faces
import SolidTree.Proofs.Span.Resolving

namespace SolidTree

/-! ## §1. Lengths on an axis. -/

namespace Extents

/-- Both edges on the axis are known: the low one, and the high one at a distance. -/
def Fills (x : Extents ℚ) (axis : Axis) (low length : ℚ) : Prop :=
  x.get (.on axis .min) = .ok low ∧ x.get (.on axis .max) = .ok (low + length)

/-- A length is not changed by a move. -/
theorem Fills.moved {x y : Extents ℚ} {axis : Axis} {low length d : ℚ}
    (h : x.Fills axis low length) (h' : x.MovedTo y axis d) : y.Fills axis (low + d) length := by
  obtain ⟨hlow, hhigh⟩ := h
  constructor
  · rw [h' .min, hlow]
    rfl
  · rw [h' .max, hhigh]
    show Except.ok (low + length + d) = Except.ok (low + d + length)
    rw [add_right_comm]

end Extents

namespace Node

/-- A length is not changed by a turn, which may take it to another axis and turn it
around. -/
theorem IsTurned.fills {n m : Node ℚ} {t : QuarterTurn} (h : n.IsTurned m t) {axis column : Axis}
    {negated : Bool} (hrow : t.RowIs axis column negated) {low length : ℚ}
    (hn : n.extents.Fills column low length) :
    m.extents.Fills axis (if negated then -(low + length) else low) length := by
  obtain ⟨hlow, hhigh⟩ := hn
  have hread := h.get_of_row hrow
  cases negated with
  | false => exact ⟨(hread .min _).mpr hlow, (hread .max _).mpr hhigh⟩
  | true =>
    -- The low edge comes from the high one and the high edge from the low one.
    refine ⟨(hread .min _).mpr ?_, (hread .max _).mpr ?_⟩
    · show n.extents.get (.on column .max) = .ok (- -(low + length))
      rw [hhigh, neg_neg]
    · have hsum : -(-(low + length) + length) = low := by ring
      show n.extents.get (.on column .min) = .ok (-(-(low + length) + length))
      rw [hlow, hsum]

/-! ## §2. One edge put in place. -/

/-- **An edge that is known can be put anywhere**, and takes its axis along. -/
theorem exists_align_edge {n : Node ℚ} {e : Edge} {c : ℚ} (h : n.extents.get e = .ok c)
    (target : ℚ) :
    ∃ m, n.align (Alignment.free.edge e target) = .ok m ∧
      n.extents.MovedTo m.extents e.axis (target - c) := by
  have hget : ((0 : Vec3 ℚ).set e.axis (target - c)).get e.axis = target - c := by
    cases e <;> rfl
  refine ⟨_, align_eq_ok.mpr ⟨(0 : Vec3 ℚ).set e.axis (target - c), fun axis => ?_, rfl⟩, ?_⟩
  · -- One axis has a target, on one of its sides, and the other two are free.
    cases e <;> cases axis <;> first
      | exact Target.offset_of_isFree ⟨rfl, rfl, rfl⟩ _ _
      | exact Target.offset_eq_ok.mpr (.inr (.inl ⟨target, c, rfl, h, rfl⟩))
      | exact Target.offset_eq_ok.mpr (.inr (.inr (.inr ⟨target, c, rfl, h, rfl⟩)))
  · have hmoved := movedTo_translate n ((0 : Vec3 ℚ).set e.axis (target - c)) e.axis
    rwa [hget] at hmoved

/-- What fills a length on an axis, put in place by one of the two edges there. -/
theorem exists_align_fills {n : Node ℚ} {axis : Axis} {low length : ℚ}
    (h : n.extents.Fills axis low length) (side : Side) (target : ℚ) :
    ∃ m, n.align (Alignment.free.edge (.on axis side) target) = .ok m ∧
      m.extents.Fills axis (match side with
        | .min => target
        | .max => target - length) length := by
  have hplaced (c : ℚ) (hc : n.extents.get (.on axis side) = .ok c) :
      ∃ m, n.align (Alignment.free.edge (.on axis side) target) = .ok m ∧
        m.extents.Fills axis (low + (target - c)) length := by
    obtain ⟨m, hm, hmoved⟩ := exists_align_edge hc target
    rw [Edge.axis_on] at hmoved
    exact ⟨m, hm, h.moved hmoved⟩
  cases side with
  | min =>
    obtain ⟨m, hm, hfills⟩ := hplaced low h.1
    rw [add_sub_cancel] at hfills
    exact ⟨m, hm, hfills⟩
  | max =>
    obtain ⟨m, hm, hfills⟩ := hplaced (low + length) h.2
    have hlow : low + (target - (low + length)) = target - length := by ring
    rw [hlow] at hfills
    exact ⟨m, hm, hfills⟩

end Node

/-! ## §3. Extrusions. -/

namespace Node

/-- An extrusion is as high as it says, from the floor of the profile on or around it. -/
theorem fills_linearExtrude {n : Node ℚ} {floor : ℚ} (h : n.extents.get .bottom = .ok floor)
    (height : ℚ) (options : ExtrudeOptions ℚ) :
    (n.linearExtrude height options).extents.Fills .z
      (if options.center then floor - height / 2.0 else floor) height := by
  have hget : (n.linearExtrude height options).extents.get
      = Operator.extrudedReading height options n.extents.get :=
    get_extents_transform nofun fun _ _ h => nomatch h.1
  have htwo : (2.0 : ℚ) = 2 := by norm_num
  unfold Extents.Fills
  rw [hget]
  constructor
  · exact Outcome.bind_eq_ok.mpr ⟨floor, h, rfl⟩
  · refine Outcome.bind_eq_ok.mpr ⟨floor, h, congrArg Except.ok ?_⟩
    split
    · show floor + height / (2.0 : ℚ) = floor - height / (2.0 : ℚ) + height
      rw [htwo]
      ring
    · rfl

/-- **An extrusion along an axis covers its span.** It takes a profile whose floor is known and
a span that resolves, and then, in either direction and with any options, its two edges on the
axis are the ends of the span. -/
theorem extrudeAlong_covers {n : Node ℚ} {floor : ℚ} (hfloor : n.extents.get .bottom = .ok floor)
    {span : SpanSpec ℚ} {t : Span ℚ} (hspan : span.resolve = .ok t) (axis : Axis)
    (reversed : Bool) (options : ExtrudeOptions ℚ) :
    ∃ m, n.extrudeAlong axis span reversed options = .ok m ∧
      m.extents.get (.on axis .min) = .ok t.start ∧
      m.extents.get (.on axis .max) = .ok t.finish := by
  have hsolve : span.solve? = some t := (SpanSpec.resolve_eq_ok.mp hspan).1
  have hlength := SpanSpec.finish_eq hsolve
  let side : Side := if reversed then .min else .max
  let target := if reversed then t.start else t.finish
  -- The face that was on top is brought to the edge that is then put in place.
  have hrow := Edge.facesTo_row .top (.on axis side)
  rw [Edge.axis_on] at hrow
  have hturned := (n.linearExtrude t.distance options).isTurned_turnFace .top (.on axis side)
  have hlanded := hturned.fills hrow (fills_linearExtrude hfloor t.distance options)
  obtain ⟨m, hm, hfills⟩ := exists_align_fills hlanded side target
  refine ⟨m, ?_, ?_⟩
  · unfold extrudeAlong
    rw [hspan]
    exact hm
  · unfold Extents.Fills at hfills
    rw [hlength]
    cases reversed with
    | true => exact hfills
    | false =>
      have hlow : t.finish - t.distance = t.start := by rw [hlength, add_sub_cancel_right]
      simp only [target, side, Bool.false_eq_true, if_false] at hfills
      rwa [hlow] at hfills

/-! A word, turned and widened on its way along X, whatever is known of its other edges. -/

/-- A word on its base line. -/
def word : Node ℚ := .leaf {} (.text { text := "on", size := 10 })

/-- Ten around seven. -/
def aroundSeven : SpanSpec ℚ where
  center? := some 7
  distance? := some 10

/-- Turned by a quarter, twice as wide at the end, and around its floor. -/
def twisted : ExtrudeOptions ℚ where
  center := true
  convexity := 10
  twist := 90
  slices := none
  scale := 2

/-- The word stands out to the left, from twelve to two. -/
theorem extrudeAlong_covers_word :
    word.extents.get .bottom = .ok 0 ∧ aroundSeven.resolve = .ok ⟨2, 7, 12, 10⟩ ∧
      ∃ m, word.extrudeAlong .x aroundSeven true twisted = .ok m ∧
        m.extents.get .left = .ok 2 ∧ m.extents.get .right = .ok 12 := by
  have hfloor : word.extents.get .bottom = .ok 0 := rfl
  have hspan : aroundSeven.resolve = .ok ⟨2, 7, 12, 10⟩ := by decide +kernel
  exact ⟨hfloor, hspan, extrudeAlong_covers hfloor hspan .x true twisted⟩

end Node

end SolidTree
