/-
  SolidTree.Proofs.Rotation.Boxes
  ───────────────────────────────
  **TURNED BOXES ARE EXACT.**

  A quarter turn moves points by its matrix and boxes by their edges: each
  edge of the turned box is read from one edge of the box before.  The two
  agree, since both go through the one entry of a row:

      t.turnPoint p   — the point that the matrix takes a point to
      p ∈ b           — on each axis the point is between the edges
      b ≤ c           — on each axis the first box is inside of the second

  Main results:
    * `source_bijective` — the edges change places
    * `isLeast_turnBox`  — a turned box is the least one around the turned points
    * `turnBox_exact`    — what an accepted rotation makes of every box, whole
      turns aside
-/
import Mathlib.Algebra.Group.ModEq
import Mathlib.Data.Fintype.EquivFin
import Mathlib.Order.Bounds.Defs
import SolidTree.Proofs.Box.Growing
import SolidTree.Proofs.Rotation.Accepted

namespace SolidTree

/-! ## §1. Sources of edges. -/

instance : Fintype Edge :=
  ⟨{.left, .right, .back, .front, .bottom, .top}, fun e => by cases e <;> decide⟩

namespace QuarterTurn

/-- The source of an edge is on its side, or on the other one if it is negated. -/
theorem side_source (t : QuarterTurn) (e : Edge) :
    (t.source e).1.side = if (t.source e).2 then e.side.opposite else e.side := by
  obtain ⟨column, negated, hsource⟩ := t.source_on e.axis
  have he := hsource e.side
  rw [Edge.on_axis_side] at he
  rw [he, Edge.side_on]

theorem source_about_bijective (axis : Axis) (q : ℕ) :
    Function.Bijective fun e => ((about axis q).source e).1 := by
  have hfour : ∀ axis, ∀ q : Fin 4,
      Function.Bijective fun e => ((about axis q).source e).1 := by decide
  rw [← about_mod]
  exact hfour axis ⟨q % 4, Nat.mod_lt q (by decide)⟩

/-- Sources compose, the outer turn first, so two turns after each other permute the edges if
each does. -/
theorem source_after_bijective {t s : QuarterTurn} (ht : t.IsAxial) (hs : s.IsAxial)
    (ht' : Function.Bijective fun e => (t.source e).1)
    (hs' : Function.Bijective fun e => (s.source e).1) :
    Function.Bijective fun e => ((t.after s).source e).1 := by
  have hcomp : (fun e => ((t.after s).source e).1)
      = (fun e => (s.source e).1) ∘ fun e => (t.source e).1 := by
    funext e
    rw [source_after ht hs]
    rfl
  rw [hcomp]
  exact hs'.comp ht'

/-- **The edges change places under quarter turns.** -/
theorem source_bijective (q : Vec3 ℕ) :
    Function.Bijective fun e => ((ofQuarters q).source e).1 :=
  source_after_bijective ((isAxial_about _ _).after (isAxial_about _ _)) (isAxial_about _ _)
    (source_after_bijective (isAxial_about _ _) (isAxial_about _ _)
      (source_about_bijective _ _) (source_about_bijective _ _))
    (source_about_bijective _ _)

end QuarterTurn

/-! ## §2. Points in boxes. -/

namespace BoundingBox

instance : Membership (Vec3 ℚ) (BoundingBox ℚ) where
  mem b p := ∀ axis, b.min.get axis ≤ p.get axis ∧ p.get axis ≤ b.max.get axis

instance : LE (BoundingBox ℚ) where
  le b c := ∀ axis, c.min.get axis ≤ b.min.get axis ∧ b.max.get axis ≤ c.max.get axis

variable {b c : BoundingBox ℚ}

theorem mem_iff {p : Vec3 ℚ} : p ∈ b ↔ ∀ e : Edge, e.side.Within (b.get e) (p.get e.axis) := by
  rw [Edge.forall_iff]
  exact forall_congr' fun axis => by cases axis <;> rfl

theorem le_iff : b ≤ c ↔ ∀ e : Edge, e.side.Within (c.get e) (b.get e) := by
  rw [Edge.forall_iff]
  exact forall_congr' fun axis => by cases axis <;> rfl

theorem isEmpty_eq_false_iff :
    b.isEmpty = false ↔ ∀ axis, b.min.get axis ≤ b.max.get axis := by
  have hall (axis : Axis) : axis ∈ Axis.all := by cases axis <;> decide
  unfold isEmpty
  rw [List.any_eq_false]
  constructor
  · intro h axis
    exact not_lt.mp fun hlt => h axis (hall axis) (decide_eq_true hlt)
  · intro h axis _ hlt
    exact not_lt.mpr (h axis) (of_decide_eq_true hlt)

/-- Each edge of a box that is not inverted has a point of the box on it, a corner. -/
theorem exists_mem_on (h : b.isEmpty = false) (e : Edge) :
    ∃ p ∈ b, p.get e.axis = b.get e := by
  have hle := isEmpty_eq_false_iff.mp h
  unfold get
  cases e.side with
  | min => exact ⟨b.min, fun axis => ⟨le_rfl, hle axis⟩, rfl⟩
  | max => exact ⟨b.max, fun axis => ⟨hle axis, le_rfl⟩, rfl⟩

end BoundingBox

/-! ## §3. Turned points and turned boxes. -/

namespace QuarterTurn

/-- The point that the matrix takes a point to. -/
def turnPoint (t : QuarterTurn) (p : Vec3 ℚ) : Vec3 ℚ :=
  .ofFn fun row => t.entry row .x * p.x + t.entry row .y * p.y + t.entry row .z * p.z

theorem turnPoint_get {t : QuarterTurn} (ht : t.IsAxial) (p : Vec3 ℚ) (e : Edge) :
    (t.turnPoint p).get e.axis
      = if (t.source e).2 then -p.get (t.source e).1.axis else p.get (t.source e).1.axis := by
  obtain ⟨column, negated, hrow⟩ := ht e.axis
  rw [source_of_row hrow, Edge.axis_on]
  unfold turnPoint
  rw [Vec3.get_ofFn, hrow .x, hrow .y, hrow .z]
  cases column <;> cases negated <;> simp [Vec3.get]

theorem turnBox_get (t : QuarterTurn) (b : BoundingBox ℚ) (e : Edge) :
    (t.turnBox b).get e
      = if (t.source e).2 then -b.get (t.source e).1 else b.get (t.source e).1 := by
  unfold turnBox
  rw [BoundingBox.get_ofFn]

/-- The readings of a turned box are its edges. -/
theorem reading_ofBox (t : QuarterTurn) (b : BoundingBox ℚ) (e : Edge) :
    t.reading (Extents.ofBox b).get e = .ok ((t.turnBox b).get e) := by
  rw [reading_eq, turnBox_get]
  unfold Extents.ofBox
  rw [Extents.get_ofFn]
  rfl

/-- **A turned box is the least one around the turned points.** -/
theorem isLeast_turnBox {t : QuarterTurn} (ht : t.IsAxial) {b : BoundingBox ℚ}
    (hb : b.isEmpty = false) : IsLeast {c | ∀ p ∈ b, t.turnPoint p ∈ c} (t.turnBox b) := by
  constructor
  · intro p hp
    rw [BoundingBox.mem_iff]
    intro e
    have hsource := BoundingBox.mem_iff.mp hp (t.source e).1
    rw [side_source] at hsource
    rw [turnBox_get, turnPoint_get ht]
    -- A negated coordinate is bounded by the edge on the other side.
    cases hnegated : (t.source e).2 with
    | false =>
      rw [hnegated] at hsource
      exact hsource
    | true =>
      rw [hnegated] at hsource
      exact hsource.neg
  · intro c hc
    rw [BoundingBox.le_iff]
    intro e
    -- The corner on the source of the edge is turned onto the edge.
    obtain ⟨p, hp, hon⟩ := BoundingBox.exists_mem_on hb (t.source e).1
    have hturned := BoundingBox.mem_iff.mp (hc p hp) e
    rwa [turnPoint_get ht, hon, ← turnBox_get] at hturned

/-! ## §4. Accepted rotations. -/

/-- Angles that differ by whole turns count as the same quarters. -/
theorem quarters?_of_modEq {a a' : ℚ} (h : a' ≡ a [PMOD 360]) : quarters? a' = quarters? a := by
  obtain ⟨m, hm⟩ := AddCommGroup.modEq_iff_zsmul.mp h
  have ha' : a' = a - m * 360 := by
    rw [zsmul_eq_mul] at hm
    rw [hm, sub_sub_cancel]
  rw [ha', quarters?_sub_turns]

/-- **An accepted rotation turns boxes exactly.** The turned box is the least one around the
turned points, whatever edge is read is the edge of that box, the edges change places and
opposite ones stay opposite, and other angles that differ by whole turns are the same turn. -/
theorem turnBox_exact {a : Vec3 ℚ} {t : QuarterTurn} (h : ofDegrees a = .ok t) :
    (∀ b : BoundingBox ℚ, b.isEmpty = false →
      IsLeast {c | ∀ p ∈ b, t.turnPoint p ∈ c} (t.turnBox b) ∧
        ∀ e, t.reading (Extents.ofBox b).get e = .ok ((t.turnBox b).get e)) ∧
      (Function.Bijective fun e => (t.source e).1) ∧
      (∀ e, t.source e.opposite = ((t.source e).1.opposite, (t.source e).2)) ∧
      ∀ a' : Vec3 ℚ, (∀ axis, a'.get axis ≡ a.get axis [PMOD 360]) → ofDegrees a' = .ok t := by
  have haxial := isAxial_ofDegrees h
  obtain ⟨q, hx, hy, hz, rfl⟩ := ofDegrees_eq_ok.mp h
  refine ⟨fun b hb => ⟨isLeast_turnBox haxial hb, reading_ofBox _ b⟩, source_bijective q,
    source_opposite _, fun a' ha' => ofDegrees_eq_ok.mpr ⟨q, ?_, ?_, ?_, rfl⟩⟩
  · rw [← hx]
    exact quarters?_of_modEq (ha' .x)
  · rw [← hy]
    exact quarters?_of_modEq (ha' .y)
  · rw [← hz]
    exact quarters?_of_modEq (ha' .z)

/-! Three angles, of which one is not quite a multiple of a right angle, and a flat box off the
origin. -/

/-- Back by a quarter about X, once around and a quarter about Y, almost half around about Z. -/
def tumble : Vec3 ℚ := ⟨-90, 450, 180 + 1e-10⟩

/-- A wall along X. -/
def wall : BoundingBox ℚ := ⟨⟨1, -2, 0⟩, ⟨4, -2, 3⟩⟩

/-- Where the wall is afterwards. -/
def tumbledWall : BoundingBox ℚ := ⟨⟨-2, -3, -4⟩, ⟨-2, 0, -1⟩⟩

theorem turnBox_exact_wall :
    ofDegrees tumble = .ok (ofQuarters ⟨3, 1, 2⟩) ∧ wall.isEmpty = false ∧
      (ofQuarters ⟨3, 1, 2⟩).turnBox wall = tumbledWall ∧
      IsLeast {c | ∀ p ∈ wall, (ofQuarters ⟨3, 1, 2⟩).turnPoint p ∈ c} tumbledWall ∧
      ofDegrees (⟨270, 90, -180 + 1e-10⟩ : Vec3 ℚ) = .ok (ofQuarters ⟨3, 1, 2⟩) := by
  have haccepted : ofDegrees tumble = .ok (ofQuarters ⟨3, 1, 2⟩) := by decide +kernel
  have hwall : wall.isEmpty = false := by decide +kernel
  have hturned : (ofQuarters ⟨3, 1, 2⟩).turnBox wall = tumbledWall := by decide +kernel
  obtain ⟨hboxes, -, -, hturns⟩ := turnBox_exact haccepted
  refine ⟨haccepted, hwall, hturned, ?_, hturns _ fun axis => ?_⟩
  · rw [← hturned]
    exact (hboxes wall hwall).1
  · -- Each angle is one turn off, up or down.
    rw [AddCommGroup.modEq_iff_zsmul]
    cases axis
    · exact ⟨-1, by norm_num [tumble, Vec3.get]⟩
    · exact ⟨1, by norm_num [tumble, Vec3.get]⟩
    · exact ⟨1, by norm_num [tumble, Vec3.get]⟩

end QuarterTurn

end SolidTree
