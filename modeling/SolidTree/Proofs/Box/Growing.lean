/-
  SolidTree.Proofs.Box.Growing
  ────────────────────────────
  **BOXES THAT GROW, MOVE AND TURN.**

  A box that starts around nothing and is grown by points and boxes, moved and
  turned is at every moment the least one around what it was grown by, as far
  as that has been moved and turned since.  The corners of the box around
  nothing are infinite, on the wrong sides, so the coordinates are extended
  reals and no sum of opposite infinities may come up:

      c.apply b       — the box after a change
      c.cover S       — the points that it has to contain then
      b.IsTight S     — on each edge, what bounds the points bounds the edge

  Tightness is kept by every change, from nothing on, and says both that the
  points are in the box and that no box around them is smaller anywhere.

  Main results:
    * `apply_isTight` — a change keeps a box tight around its points
    * `changed_isLeast` — after any changes the box is the least one, and it is
      empty just if none of them added anything
-/
import SolidTree.Number.Extended
import SolidTree.Proofs.Exact.Outermost
import SolidTree.Proofs.Rotation.Axial

namespace SolidTree

open scoped ExtendedReals

/-! ## §1. Extended coordinates. -/

namespace ExtendedReals

scoped instance : Scalar.Ordered EReal where
  le_refl := le_refl
  le_trans _ _ _ := le_trans
  le_total := le_total
  isNumber a := decide_eq_true (rfl : a = a)

theorem defined_coe (a : EReal) (x : ℝ) : Defined a x := by
  unfold Defined
  simp

/-- What is between two coordinates has a sum where both have one. -/
theorem Defined.of_between {low a high b : EReal} (hlow : Defined low b) (hhigh : Defined high b)
    (h : low ≤ a) (h' : a ≤ high) : Defined a b := by
  constructor
  · intro htop
    exact hhigh.1 ⟨top_le_iff.mp (htop.1 ▸ h'), htop.2⟩
  · intro hbot
    exact hlow.2 ⟨le_bot_iff.mp (hbot.1 ▸ h), hbot.2⟩

/-- A sum with an infinity is the infinity. -/
theorem Defined.add_infinite {a b : EReal} (h : Defined a b) (hb : b = ⊤ ∨ b = ⊥) :
    a + b = b := by
  rcases hb with rfl | rfl
  · exact EReal.add_top_of_ne_bot fun hbot => h.2 ⟨hbot, rfl⟩
  · exact EReal.add_bot a

end ExtendedReals

namespace Side

/-- What bounds the outer one of two coordinates bounds both. -/
theorem within_outer {s : Side} {w a b : EReal} :
    s.Within w (Extents.outer s a b) ↔ s.Within w a ∧ s.Within w b := by
  obtain ⟨hone, ha, hb⟩ := Scalar.outer_choice s a b
  constructor
  · intro h
    exact ⟨h.trans ha, h.trans hb⟩
  · intro h
    rcases hone with hone | hone <;> rw [hone]
    · exact h.1
    · exact h.2

/-- Negation takes what bounds one side to what bounds the other. -/
theorem within_neg {s : Side} {w a : EReal} : s.Within w (-a) ↔ s.opposite.Within (-w) a := by
  cases s with
  | min => exact EReal.le_neg
  | max => exact EReal.neg_le

/-- What bounds a sum with a real number bounds the other one after a difference. -/
theorem within_add_coe {s : Side} {w a : EReal} {x : ℝ} :
    s.Within w (a + x) ↔ s.Within (w - x) a := by
  have hbot : (x : EReal) ≠ ⊥ := EReal.coe_ne_bot x
  have htop : (x : EReal) ≠ ⊤ := EReal.coe_ne_top x
  cases s with
  | min => exact (EReal.sub_le_iff_le_add (.inl hbot) (.inl htop)).symm
  | max => exact (EReal.le_sub_iff_add_le (.inl hbot) (.inl htop)).symm

end Side

/-! ## §2. Boxes and points. -/

namespace BoundingBox

/-- The point is in the box. -/
def Contains (b : BoundingBox EReal) (p : Vec3 EReal) : Prop :=
  ∀ axis, b.min.get axis ≤ p.get axis ∧ p.get axis ≤ b.max.get axis

/-- No edge of the box is beyond the one of the other. -/
def Inside (b c : BoundingBox EReal) : Prop :=
  ∀ axis, c.min.get axis ≤ b.min.get axis ∧ b.max.get axis ≤ c.max.get axis

/-- The box contains the points and is inside of every box that does. -/
def IsLeastAround (b : BoundingBox EReal) (points : Set (Vec3 EReal)) : Prop :=
  (∀ p ∈ points, b.Contains p) ∧ ∀ c, (∀ p ∈ points, c.Contains p) → b.Inside c

/-- No axis has its high edge below its low edge. -/
def IsUpright (b : BoundingBox EReal) : Prop := ∀ axis, b.min.get axis ≤ b.max.get axis

/-- On each edge, what bounds all of the points bounds the edge. -/
def IsTight (b : BoundingBox EReal) (points : Set (Vec3 EReal)) : Prop :=
  ∀ (e : Edge) (w : EReal), e.side.Within w (b.get e) ↔ ∀ p ∈ points, e.side.Within w (p.get e.axis)

theorem contains_iff {b : BoundingBox EReal} {p : Vec3 EReal} :
    b.Contains p ↔ ∀ e : Edge, e.side.Within (b.get e) (p.get e.axis) := by
  rw [Edge.forall_iff]
  exact forall_congr' fun axis => by cases axis <;> rfl

theorem inside_iff {b c : BoundingBox EReal} :
    b.Inside c ↔ ∀ e : Edge, e.side.Within (c.get e) (b.get e) := by
  rw [Edge.forall_iff]
  exact forall_congr' fun axis => by cases axis <;> rfl

/-- **A tight box is the least one.** -/
theorem IsTight.isLeastAround {b : BoundingBox EReal} {points : Set (Vec3 EReal)}
    (h : b.IsTight points) : b.IsLeastAround points := by
  constructor
  · intro p hp
    exact contains_iff.mpr fun e => (h e _).mp (e.side.within_refl _) p hp
  · intro c hc
    exact inside_iff.mpr fun e => (h e _).mpr fun p hp => contains_iff.mp (hc p hp) e

theorem isTight_empty : (empty : BoundingBox EReal).IsTight ∅ := by
  intro e w
  refine iff_of_true ?_ fun p hp => absurd hp (Set.notMem_empty p)
  cases e
  · exact le_top
  · exact bot_le
  · exact le_top
  · exact bot_le
  · exact le_top
  · exact bot_le

/-- Around nothing, every edge is bounded by everything. -/
theorem IsTight.within_of_empty {b : BoundingBox EReal} (h : b.IsTight ∅) (e : Edge) (w : EReal) :
    e.side.Within w (b.get e) :=
  (h e w).mpr fun p hp => absurd hp (Set.notMem_empty p)

theorem IsUpright.contains_min {b : BoundingBox EReal} (h : b.IsUpright) : b.Contains b.min :=
  fun axis => ⟨le_rfl, h axis⟩

theorem IsUpright.contains_max {b : BoundingBox EReal} (h : b.IsUpright) : b.Contains b.max :=
  fun axis => ⟨h axis, le_rfl⟩

/-! ## §3. Growing. -/

theorem get_grow (b : BoundingBox EReal) (p : Vec3 EReal) (e : Edge) :
    (b.grow p).get e = Extents.outer e.side (b.get e) (p.get e.axis) := by
  cases e <;> rfl

theorem IsTight.grow {b : BoundingBox EReal} {points : Set (Vec3 EReal)} (h : b.IsTight points)
    (p : Vec3 EReal) : (b.grow p).IsTight (insert p points) := by
  intro e w
  rw [get_grow, Side.within_outer, h e w, Set.forall_mem_insert]
  exact and_comm

/-- Whatever is compared with a number, the lower one is kept. -/
theorem lowerOf_eq {α : Type} [Scalar α] {a b : α} (hb : Scalar.isNumber b = true) :
    lowerOf a b = Scalar.lesser a b := by
  unfold lowerOf Scalar.lesser
  rw [if_pos hb]

/-- Whatever is compared with a number, the upper one is kept. -/
theorem upperOf_eq {α : Type} [Scalar α] {a b : α} (hb : Scalar.isNumber b = true) :
    upperOf a b = Scalar.greater a b := by
  unfold upperOf Scalar.greater
  rw [if_pos hb]

theorem get_union (b c : BoundingBox EReal) (e : Edge) :
    (b.union c).get e = Extents.outer e.side (b.get e) (c.get e) := by
  have hnumber := Scalar.Ordered.isNumber (c.get e)
  cases e
  case left | back | bottom => exact lowerOf_eq hnumber
  case right | front | top => exact upperOf_eq hnumber

/-- A box that is not inverted contains its two corners. -/
theorem isTight_contains {c : BoundingBox EReal} (hc : c.IsUpright) :
    c.IsTight {p | c.Contains p} := by
  intro e w
  constructor
  · intro hw p hp
    exact hw.trans (contains_iff.mp hp e)
  · intro hw
    have hmin := hw _ hc.contains_min
    have hmax := hw _ hc.contains_max
    cases e <;> assumption

theorem IsTight.union {b c : BoundingBox EReal} {points more : Set (Vec3 EReal)}
    (hb : b.IsTight points) (hc : c.IsTight more) : (b.union c).IsTight (points ∪ more) := by
  intro e w
  rw [get_union, Side.within_outer, hb e w, hc e w]
  constructor
  · intro h p hp
    rcases hp with hp | hp
    · exact h.1 p hp
    · exact h.2 p hp
  · intro h
    exact ⟨fun p hp => h p (.inl hp), fun p hp => h p (.inr hp)⟩

/-! ## §4. Moving. -/

theorem get_translate (b : BoundingBox EReal) (v : Vec3 EReal) (e : Edge) :
    (b.translate v).get e = b.get e + v.get e.axis := by
  cases e <;> rfl

/-- There are points in a tight box that an infinity can be added to. -/
theorem IsTight.nonempty_of_defined {b : BoundingBox EReal} {points : Set (Vec3 EReal)}
    (h : b.IsTight points) {axis : Axis} {a : EReal} (ha : a = ⊤ ∨ a = ⊥)
    (hdefined : ∀ side, ExtendedReals.Defined (b.get (.on axis side)) a) : points.Nonempty := by
  by_contra hempty
  obtain rfl := Set.not_nonempty_iff_eq_empty.mp hempty
  -- Around nothing, the edges of an axis are opposite infinities.
  rcases ha with rfl | rfl
  · have hmax := h.within_of_empty (.on axis .max) ⊥
    rw [Edge.side_on] at hmax
    exact (hdefined .max).2 ⟨le_bot_iff.mp hmax, rfl⟩
  · have hmin := h.within_of_empty (.on axis .min) ⊤
    rw [Edge.side_on] at hmin
    exact (hdefined .min).1 ⟨top_le_iff.mp hmin, rfl⟩

theorem IsTight.translate {b : BoundingBox EReal} {points : Set (Vec3 EReal)}
    (h : b.IsTight points) {v : Vec3 EReal}
    (hdefined : ∀ e : Edge, ExtendedReals.Defined (b.get e) (v.get e.axis)) :
    (b.translate v).IsTight ((· + v) '' points) := by
  intro e w
  have hget (p : Vec3 EReal) : (p + v).get e.axis = p.get e.axis + v.get e.axis :=
    Vec3.get_zipWith _ p v e.axis
  rw [get_translate, Set.forall_mem_image]
  simp only [hget]
  by_cases hinfinite : v.get e.axis = ⊤ ∨ v.get e.axis = ⊥
  · -- Everything is moved to the infinity, and there is something that is.
    have haxis (side : Side) : ExtendedReals.Defined (b.get (.on e.axis side)) (v.get e.axis) := by
      have hside := hdefined (.on e.axis side)
      rwa [Edge.axis_on] at hside
    obtain ⟨q, hq⟩ := h.nonempty_of_defined hinfinite haxis
    have hpoint {p : Vec3 EReal} (hp : p ∈ points) :
        p.get e.axis + v.get e.axis = v.get e.axis := by
      have hbetween := Edge.forall_iff.mp (contains_iff.mp (h.isLeastAround.1 p hp)) e.axis
      rw [Edge.side_on, Edge.side_on, Edge.axis_on, Edge.axis_on] at hbetween
      exact ((haxis .min).of_between (haxis .max) hbetween.1 hbetween.2).add_infinite hinfinite
    rw [(hdefined e).add_infinite hinfinite]
    constructor
    · intro hw p hp
      rwa [hpoint hp]
    · intro hw
      have hwq := hw hq
      rwa [hpoint hq] at hwq
  · have hreal := EReal.coe_toReal (fun htop => hinfinite (.inl htop))
      fun hbot => hinfinite (.inr hbot)
    rw [← hreal, Side.within_add_coe, h e]
    exact forall₂_congr fun p _ => Side.within_add_coe.symm

end BoundingBox

/-! ## §5. Turning. -/

/-- The point that the matrix takes a point to. A zero takes nothing of an infinity. -/
noncomputable def QuarterTurn.image (t : QuarterTurn) (p : Vec3 EReal) : Vec3 EReal :=
  .ofFn fun row =>
    ((t.entry row .x : ℝ) : EReal) * p.x + ((t.entry row .y : ℝ) : EReal) * p.y
      + ((t.entry row .z : ℝ) : EReal) * p.z

theorem QuarterTurn.image_of_row {t : QuarterTurn} {row column : Axis} {negated : Bool}
    (h : t.RowIs row column negated) (p : Vec3 EReal) :
    (t.image p).get row = if negated then -p.get column else p.get column := by
  unfold image
  rw [Vec3.get_ofFn, h .x, h .y, h .z]
  cases column <;> cases negated <;> simp [Vec3.get]

namespace BoundingBox

theorem get_turnBox {t : QuarterTurn} {e : Edge} {column : Axis} {negated : Bool}
    (h : t.RowIs e.axis column negated) (b : BoundingBox EReal) :
    (t.turnBox b).get e = if negated then -b.get (.on column e.side.opposite)
      else b.get (.on column e.side) := by
  unfold QuarterTurn.turnBox
  rw [get_ofFn, QuarterTurn.source_of_row h]
  cases negated <;> rfl

theorem IsTight.turn {b : BoundingBox EReal} {points : Set (Vec3 EReal)} (h : b.IsTight points)
    {t : QuarterTurn} (ht : t.IsAxial) : (t.turnBox b).IsTight (t.image '' points) := by
  intro e w
  obtain ⟨column, negated, hrow⟩ := ht e.axis
  rw [get_turnBox hrow, Set.forall_mem_image]
  simp only [QuarterTurn.image_of_row hrow]
  cases negated with
  | false =>
    have hedge := h (.on column e.side) w
    rwa [Edge.side_on, Edge.axis_on] at hedge
  | true =>
    -- A negated edge was the opposite one before.
    have hedge := h (.on column e.side.opposite) (-w)
    rw [Edge.side_on, Edge.axis_on] at hedge
    simp only [if_true, Side.within_neg]
    exact hedge

/-! ## §6. Nothing in a box. -/

/-- **A tight box is empty just around nothing.** -/
theorem IsTight.isEmpty_iff {b : BoundingBox EReal} {points : Set (Vec3 EReal)}
    (h : b.IsTight points) : b.isEmpty = true ↔ points = ∅ := by
  unfold isEmpty
  rw [List.any_eq_true]
  constructor
  · intro hinverted
    obtain ⟨axis, -, haxis⟩ := hinverted
    by_contra hne
    obtain ⟨p, hp⟩ := Set.nonempty_iff_ne_empty.mpr hne
    -- A point would be above the low edge and below the high one.
    obtain ⟨hmin, hmax⟩ := h.isLeastAround.1 p hp axis
    exact not_le_of_gt (of_decide_eq_true haxis) (hmin.trans hmax)
  · intro hpoints
    subst hpoints
    have hmin : b.min.x = ⊤ := top_le_iff.mp (h.within_of_empty .left ⊤)
    have hmax : b.max.x = ⊥ := le_bot_iff.mp (h.within_of_empty .right ⊥)
    refine ⟨.x, List.mem_cons_self, decide_eq_true ?_⟩
    show b.max.x < b.min.x
    rw [hmin, hmax]
    exact bot_lt_top

end BoundingBox

/-! ## §7. Changes. -/

/-- A way in which a box changes. -/
inductive Change where
  /-- It grows to reach a point. -/
  | grow (p : Vec3 EReal)
  /-- It grows to reach a box. -/
  | union (c : BoundingBox EReal)
  | translate (offset : Vec3 EReal)
  /-- It turns by quarters about X, then about Y, then about Z. -/
  | turn (quarters : Vec3 ℕ)

namespace Change

/-- The box after a change. -/
noncomputable def apply (b : BoundingBox EReal) : Change → BoundingBox EReal
  | .grow p => b.grow p
  | .union c => b.union c
  | .translate v => b.translate v
  | .turn q => (QuarterTurn.ofQuarters q).turnBox b

/-- What was added so far, after a change: added to, moved or turned. -/
def cover (points : Set (Vec3 EReal)) : Change → Set (Vec3 EReal)
  | .grow p => insert p points
  | .union c => points ∪ {p | c.Contains p}
  | .translate v => (· + v) '' points
  | .turn q => (QuarterTurn.ofQuarters q).image '' points

/-- The change adds something. -/
def Adds : Change → Prop
  | .grow _ | .union _ => True
  | .translate _ | .turn _ => False

/-- The box can be changed like this: a box that is added is not inverted, and no edge is
moved by an infinity opposite to it. -/
def IsAdmitted (b : BoundingBox EReal) : Change → Prop
  | .union c => c.IsUpright
  | .translate v => ∀ e : Edge, ExtendedReals.Defined (b.get e) (v.get e.axis)
  | .grow _ | .turn _ => True

/-- A box can be moved by any real offset, also the box around nothing. -/
theorem isAdmitted_translate (b : BoundingBox EReal) (x y z : ℝ) :
    (translate ⟨x, y, z⟩).IsAdmitted b := by
  intro e
  cases e <;> exact ExtendedReals.defined_coe _ _

/-- All of these changes can be made, one after the other. -/
def AllAdmitted (b : BoundingBox EReal) : List Change → Prop
  | [] => True
  | c :: rest => c.IsAdmitted b ∧ AllAdmitted (c.apply b) rest

/-- **A change keeps a box tight.** -/
theorem apply_isTight {b : BoundingBox EReal} {points : Set (Vec3 EReal)} (h : b.IsTight points)
    {c : Change} (hc : c.IsAdmitted b) : (c.apply b).IsTight (c.cover points) := by
  cases c with
  | grow p => exact h.grow p
  | union c => exact h.union (BoundingBox.isTight_contains hc)
  | translate v => exact h.translate hc
  | turn q => exact h.turn (QuarterTurn.isAxial_ofQuarters q)

/-- **Changes keep a box tight.** -/
theorem foldl_apply_isTight {b : BoundingBox EReal} {points : Set (Vec3 EReal)}
    (h : b.IsTight points) {changes : List Change} (hchanges : AllAdmitted b changes) :
    (changes.foldl apply b).IsTight (changes.foldl cover points) := by
  induction changes generalizing b points with
  | nil => exact h
  | cons c rest ih => exact ih (apply_isTight h hchanges.1) hchanges.2

/-- There is something in a box just if there was something or the change adds something. -/
theorem cover_eq_empty {b : BoundingBox EReal} {c : Change} (hc : c.IsAdmitted b)
    (points : Set (Vec3 EReal)) : c.cover points = ∅ ↔ points = ∅ ∧ ¬ c.Adds := by
  cases c with
  | grow p => exact iff_of_false (Set.insert_nonempty p points).ne_empty fun h => h.2 trivial
  | union c =>
    refine iff_of_false (fun h => ?_) fun h => h.2 trivial
    exact Set.notMem_empty c.min (h ▸ Set.mem_union_right points hc.contains_min)
  | translate v => simp [cover, Adds]
  | turn q => simp [cover, Adds]

theorem foldl_cover_eq_empty {b : BoundingBox EReal} {changes : List Change}
    (hchanges : AllAdmitted b changes) (points : Set (Vec3 EReal)) :
    changes.foldl cover points = ∅ ↔ points = ∅ ∧ ∀ c ∈ changes, ¬ c.Adds := by
  induction changes generalizing b points with
  | nil => simp
  | cons c rest ih =>
    rw [List.foldl_cons, ih hchanges.2, cover_eq_empty hchanges.1, List.forall_mem_cons, and_assoc]

/-- **A box that grows, moves and turns is the least one.** Whatever changes are made from the
box around nothing on, if they can be made, the box is the least one around what was added,
moved and turned as it was since, and it is empty just if nothing was added. -/
theorem changed_isLeast {changes : List Change} (h : AllAdmitted .empty changes) :
    (changes.foldl apply .empty).IsLeastAround (changes.foldl cover ∅) ∧
      ((changes.foldl apply .empty).isEmpty = true ↔ ∀ c ∈ changes, ¬ c.Adds) := by
  have htight := foldl_apply_isTight BoundingBox.isTight_empty h
  refine ⟨htight.isLeastAround, ?_⟩
  rw [htight.isEmpty_iff, foldl_cover_eq_empty h]
  exact and_iff_right rfl

/-! A box that is moved while it is around nothing, reaches a point, turns about Z, reaches a
block and is moved again. -/

/-- The changes. -/
noncomputable def journey : List Change :=
  [.translate ⟨(1 : ℝ), (0 : ℝ), (0 : ℝ)⟩, .grow ⟨1, 0, -1⟩, .turn ⟨0, 0, 1⟩,
    .union ⟨⟨0, 0, 0⟩, ⟨1, ⊤, 1⟩⟩, .translate ⟨(1 : ℝ), (1 : ℝ), (-1 : ℝ)⟩]

theorem allAdmitted_journey : AllAdmitted .empty journey := by
  have hblock (b : BoundingBox EReal) : (union ⟨⟨0, 0, 0⟩, ⟨1, ⊤, 1⟩⟩).IsAdmitted b := by
    intro axis
    cases axis
    · exact zero_le_one
    · exact le_top
    · exact zero_le_one
  exact ⟨isAdmitted_translate _ _ _ _, trivial, trivial, hblock _, isAdmitted_translate _ _ _ _,
    trivial⟩

/-- The box around nothing and the box at the end of the journey are the least ones, and only
the first one is empty. -/
theorem changed_isLeast_journey :
    AllAdmitted .empty journey ∧
      (journey.foldl apply .empty).IsLeastAround (journey.foldl cover ∅) ∧
      (journey.foldl apply .empty).isEmpty = false ∧
      (([] : List Change).foldl apply .empty).isEmpty = true := by
  obtain ⟨hleast, hempty⟩ := changed_isLeast allAdmitted_journey
  refine ⟨allAdmitted_journey, hleast, ?_, ?_⟩
  · rw [← Bool.not_eq_true, hempty]
    intro hnone
    exact hnone (.grow ⟨1, 0, -1⟩) (by simp [journey]) trivial
  · exact (@changed_isLeast [] trivial).2.mpr (List.forall_mem_nil _)

end Change

end SolidTree
