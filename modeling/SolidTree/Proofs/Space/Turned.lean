/-
  SolidTree.Proofs.Space.Turned
  ─────────────────────────────
  **ACCEPTED ROTATIONS OF SPACE.**

  A matrix of a quarter turn acts on points, and where three angles are
  accepted, the rotation of space by them is the action of their matrix: the
  cosine and the sine of `q` quarters are the integers of `cosSin`.

  Main results:
    * `rotate_eq_act` — a rotation that is accepted moves points by its matrix
    * `act_of_row` — the coordinates of a moved point
-/
import Mathlib.Algebra.Order.Round
import SolidTree.Proofs.Space.Region

namespace SolidTree.QuarterTurn

/-! ## §1. Matrices and points. -/

/-- The point that the matrix takes a point to. -/
def act (t : QuarterTurn) (p : Point) : Point := fun row =>
  t.entry row .x * p .x + t.entry row .y * p .y + t.entry row .z * p .z

theorem act_after (t s : QuarterTurn) (p : Point) : (t.after s).act p = t.act (s.act p) := by
  funext row
  unfold act
  rw [entry_after, entry_after, entry_after]
  push_cast
  ring

/-- A moved point has a coordinate of the point before, perhaps negated. -/
theorem act_of_row {t : QuarterTurn} {row column : Axis} {negated : Bool}
    (h : t.RowIs row column negated) (p : Point) :
    t.act p row = if negated then -p column else p column := by
  unfold act
  rw [h .x, h .y, h .z]
  cases column <;> cases negated <;> simp

/-! ## §2. Cosines and sines of quarters. -/

theorem cos_quarters (q : ℕ) :
    Real.cos ((90 * q : ℝ) * (Real.pi / 180)) = (cosSin q).1 ∧
      Real.sin ((90 * q : ℝ) * (Real.pi / 180)) = (cosSin q).2 := by
  induction q with
  | zero => simp [cosSin]
  | succ q ih =>
    -- One more quarter is a right angle more, on both sides.
    have hangle : (90 * (q + 1 : ℕ) : ℝ) * (Real.pi / 180)
        = 90 * q * (Real.pi / 180) + Real.pi / 2 := by
      push_cast
      ring
    rw [hangle, Real.cos_add_pi_div_two, Real.sin_add_pi_div_two, ih.1, ih.2, cosSin_add]
    simp [cosSin]

/-- The rotation of space by some quarters is the action of their matrix. -/
theorem rotateAbout_quarters (axis : Axis) (q : ℕ) :
    Point.rotateAbout axis (90 * q) = (about axis q).act := by
  obtain ⟨hcos, hsin⟩ := cos_quarters q
  funext p row
  unfold Point.rotateAbout act about
  rw [hcos, hsin]
  cases axis <;> cases row <;> simp [Point.turnAbout, entry, Vec3.get] <;> ring

/-- Only the number of quarters up to whole turns matters. -/
theorem rotateAbout_mod (axis : Axis) {q : ℕ} {k : ℤ} (h : (q : ℤ) = k % 4) :
    Point.rotateAbout axis (90 * k) = (about axis q).act := by
  have hk : (90 * k : ℝ) = 90 * q + (k / 4 : ℤ) * 360 := by
    have hsplit : (k : ℤ) = q + 4 * (k / 4) := by omega
    have hcast : (k : ℝ) = q + 4 * (k / 4 : ℤ) := by exact_mod_cast hsplit
    rw [hcast]
    ring
  rw [hk, ← rotateAbout_quarters]
  exact (Point.rotateAbout_periodic axis).int_mul _ _

/-! ## §3. Three angles. -/

/-- An angle is near no other number of quarters than the nearest one. -/
theorem Near.eq_round {a : ℚ} {k : ℤ} (h : Near a k) : round (a / 90) = k := by
  obtain ⟨hlow, hhigh⟩ := abs_lt.mp h.lt_half
  rw [round_eq, Int.floor_eq_iff]
  constructor <;> linarith

/-- **An accepted rotation moves points by its matrix.** -/
theorem rotate_eq_act {a : Vec3 ℚ} {t : QuarterTurn} (h : ofDegrees a = .ok t) :
    Point.rotate a = t.act := by
  obtain ⟨q, hx, hy, hz, rfl⟩ := ofDegrees_eq_ok.mp h
  obtain ⟨i, hi, hqx⟩ := quarters?_eq_some.mp hx
  obtain ⟨j, hj, hqy⟩ := quarters?_eq_some.mp hy
  obtain ⟨k, hk, hqz⟩ := quarters?_eq_some.mp hz
  -- The three angles settle on the numbers of quarters that they are near.
  have hsettled : Point.settled a = ⟨90 * i, 90 * j, 90 * k⟩ := by
    unfold Point.settled
    rw [if_pos]
    · unfold Vec3.map
      dsimp only
      rw [hi.eq_round, hj.eq_round, hk.eq_round]
    · intro axis
      cases axis <;> simp only [Vec3.get]
      · rwa [hi.eq_round]
      · rwa [hj.eq_round]
      · rwa [hk.eq_round]
  funext p
  unfold Point.rotate ofQuarters
  rw [hsettled, act_after, act_after, ← rotateAbout_mod .x hqx, ← rotateAbout_mod .y hqy,
    ← rotateAbout_mod .z hqz]
  push_cast
  rfl

end SolidTree.QuarterTurn
