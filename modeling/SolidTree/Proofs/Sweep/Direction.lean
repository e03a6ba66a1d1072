/-
  SolidTree.Proofs.Sweep.Direction
  ────────────────────────────────
  **DIRECTIONS OF REAL ANGLES.**

  Over the reals the direction of an angle is its cosine and its sine, also
  on the four quarter turns where it is looked up.  Between two neighbouring
  quarter turns either component only rises or only falls.

  Main results:
    * `direction_eq` — the direction of an angle, whatever whole turns it has
    * `component_between` — between two quarter turns a component lies
      between its values at the ends
-/
import Mathlib.Analysis.SpecialFunctions.Trigonometric.Basic
import Mathlib.Tactic.Linarith
import SolidTree.Geometry.Angle
import SolidTree.Geometry.Axis
import SolidTree.Number.Real

namespace SolidTree

open scoped Reals

/-- A truncated real is less than one away. -/
theorem Reals.abs_sub_truncate_lt (x : ℝ) : |x - truncate x| < 1 := by
  unfold truncate
  rw [abs_lt]
  by_cases h : x < 0
  · rw [if_pos h]
    have hle := Int.le_ceil x
    have hlt := Int.ceil_lt_add_one x
    constructor <;> linarith
  · rw [if_neg h]
    have hle := Int.floor_le x
    have hlt := Int.lt_floor_add_one x
    constructor <;> linarith

namespace Angle

/-! ## §1. Whole turns. -/

/-- An angle in degrees as an angle in radians. -/
noncomputable def radians (degrees : ℝ) : ℝ := degrees * (Real.pi / (180 : ℕ))

theorem radians_eq (degrees : ℝ) : radians degrees = degrees * (Real.pi / 180) := by
  simp [radians]

theorem radians_add (a b : ℝ) : radians (a + b) = radians a + radians b := by
  simp only [radians_eq]
  ring

theorem radians_turns (k : ℤ) : radians (k * 360) = k * (2 * Real.pi) := by
  simp only [radians_eq]
  ring

theorem radians_quarter : radians 90 = Real.pi / 2 := by
  rw [radians_eq]
  ring

/-- A reduced angle differs from the angle by whole turns. -/
theorem exists_normalize_eq (a : ℝ) : ∃ k : ℤ, normalize a = a + k * 360 := by
  have hnear := Reals.abs_sub_truncate_lt (a / 360)
  have hrest : Scalar.remainder a (360.0 : ℝ) = a + (-Reals.truncate (a / 360) : ℤ) * 360 := by
    show a - Reals.truncate (a / 360.0) * 360.0 = _
    norm_num
    ring
  -- What is left is less than one turn, in either direction.
  have hlow : -360 < a + (-Reals.truncate (a / 360) : ℤ) * 360 := by
    have := (abs_lt.mp hnear).1
    push_cast
    linarith
  have hhigh : a + (-Reals.truncate (a / 360) : ℤ) * 360 < 360 := by
    have := (abs_lt.mp hnear).2
    push_cast
    linarith
  unfold normalize
  rw [hrest]
  generalize -Reals.truncate (a / 360) = k at hlow hhigh
  by_cases hneg : a + k * 360 < 0
  · have hfull : ¬ (360.0 : ℝ) ≤ a + k * 360 + 360.0 := by
      norm_num
      linarith
    simp only [if_pos hneg, if_neg hfull]
    refine ⟨k + 1, ?_⟩
    push_cast
    norm_num
    ring
  · have hfull : ¬ (360.0 : ℝ) ≤ a + k * 360 := by
      norm_num
      linarith
    simp only [if_neg hneg, if_neg hfull]
    exact ⟨k, rfl⟩

/-! ## §2. Directions. -/

/-- The direction of an angle is its cosine and its sine. -/
theorem direction_eq (a : ℝ) :
    direction a = (Real.cos (radians a), Real.sin (radians a)) := by
  obtain ⟨k, hk⟩ := exists_normalize_eq a
  -- Whole turns change neither component, so the reduced angle may be looked at instead.
  have hturns : radians (normalize a) = radians a + k * (2 * Real.pi) := by
    rw [hk, radians_add, radians_turns]
  have hcos : Real.cos (radians (normalize a)) = Real.cos (radians a) := by
    rw [hturns, Real.cos_add_int_mul_two_pi]
  have hsin : Real.sin (radians (normalize a)) = Real.sin (radians a) := by
    rw [hturns, Real.sin_add_int_mul_two_pi]
  rw [← hcos, ← hsin]
  unfold direction
  generalize normalize a = b
  have hback : radians 180 = Real.pi := by
    simp only [radians_eq]
    ring
  have hleft : radians 270 = Real.pi / 2 + Real.pi := by
    simp only [radians_eq]
    ring
  have hbeq (x y : ℝ) : (x == y) = true ↔ x = y := decide_eq_true_iff
  simp only [hbeq]
  norm_num only
  split_ifs with h0 h90 h180 h270
  · rw [h0]
    simp [radians]
  · rw [h90, radians_quarter, Real.cos_pi_div_two, Real.sin_pi_div_two]
  · rw [h180, hback, Real.cos_pi, Real.sin_pi]
  · rw [h270, hleft, Real.cos_add_pi, Real.sin_add_pi, Real.cos_pi_div_two,
      Real.sin_pi_div_two, neg_zero]
  · rfl

/-! ## §3. Components. -/

/-- What a point at distance one shows on an axis of the XY plane. -/
noncomputable def component (axis : Axis) (degrees : ℝ) : ℝ :=
  match axis with
  | .x => Real.cos (radians degrees)
  | _ => Real.sin (radians degrees)

theorem component_half_turn (axis : Axis) (t : ℝ) :
    component axis (t + 180) = -component axis t := by
  have hhalf : radians (t + 180) = radians t + Real.pi := by
    simp only [radians_eq]
    ring
  cases axis <;> simp only [component, hhalf, Real.cos_add_pi, Real.sin_add_pi]

/-- Between two neighbouring multiples of `π` the cosine only rises or only falls. -/
theorem cos_between {j : ℤ} {a t b : ℝ} (ha : j * Real.pi ≤ a) (hat : a ≤ t) (htb : t ≤ b)
    (hb : b ≤ (j + 1) * Real.pi) :
    (Real.cos a ≤ Real.cos t ∧ Real.cos t ≤ Real.cos b) ∨
      (Real.cos b ≤ Real.cos t ∧ Real.cos t ≤ Real.cos a) := by
  have hshift (x : ℝ) : Real.cos x = (-1) ^ j * Real.cos (x - j * Real.pi) := by
    rw [← Real.cos_add_int_mul_pi, sub_add_cancel]
  have hfirst : Real.cos (t - j * Real.pi) ≤ Real.cos (a - j * Real.pi) :=
    Real.cos_le_cos_of_nonneg_of_le_pi (by linarith) (by linarith) (by linarith)
  have hsecond : Real.cos (b - j * Real.pi) ≤ Real.cos (t - j * Real.pi) :=
    Real.cos_le_cos_of_nonneg_of_le_pi (by linarith) (by linarith) (by linarith)
  rw [hshift a, hshift t, hshift b]
  rcases Int.even_or_odd j with heven | hodd
  · rw [heven.neg_one_zpow, one_mul, one_mul, one_mul]
    exact .inr ⟨hsecond, hfirst⟩
  · rw [hodd.neg_one_zpow]
    exact .inl ⟨by linarith, by linarith⟩

/-- Between two neighbouring quarter turns a component lies between its values at the
ends of any stretch. -/
theorem component_between (axis : Axis) {k : ℤ} {a t b : ℝ} (ha : k * 90 ≤ a) (hat : a ≤ t)
    (htb : t ≤ b) (hb : b ≤ (k + 1) * 90) :
    (component axis a ≤ component axis t ∧ component axis t ≤ component axis b) ∨
      (component axis b ≤ component axis t ∧ component axis t ≤ component axis a) := by
  -- A sine is the cosine of a quarter turn less.
  obtain ⟨q, hq⟩ : ∃ q : ℤ, ∀ t, component axis t = Real.cos (radians t - q * (Real.pi / 2)) := by
    cases axis with
    | x => exact ⟨0, fun t => by simp [component]⟩
    | y | z => exact ⟨1, fun t => by rw [Int.cast_one, one_mul, Real.cos_sub_pi_div_two]; rfl⟩
  rw [hq a, hq t, hq b]
  have hmono {x y : ℝ} (h : x ≤ y) : radians x ≤ radians y :=
    mul_le_mul_of_nonneg_right h (by positivity)
  have hstart : (k : ℝ) * (Real.pi / 2) ≤ radians a := by
    have := hmono ha
    simp only [radians_eq] at this ⊢
    linarith
  have hstop : radians b ≤ ((k : ℝ) + 1) * (Real.pi / 2) := by
    have := hmono hb
    simp only [radians_eq] at this ⊢
    linarith
  have hlow : 2 * ((k - q) / 2) ≤ k - q := by omega
  have hhigh : k - q ≤ 2 * ((k - q) / 2) + 1 := by omega
  have hlow' : 2 * (((k - q) / 2 : ℤ) : ℝ) ≤ k - q := by exact_mod_cast hlow
  have hhigh' : (k - q : ℝ) ≤ 2 * (((k - q) / 2 : ℤ) : ℝ) + 1 := by exact_mod_cast hhigh
  have hpi : 0 < Real.pi / 2 := by positivity
  refine cos_between (j := (k - q) / 2) ?_ ?_ ?_ ?_
  · have := mul_le_mul_of_nonneg_right hlow' hpi.le
    linarith
  · linarith [hmono hat]
  · linarith [hmono htb]
  · have := mul_le_mul_of_nonneg_right hhigh' hpi.le
    linarith

end Angle

end SolidTree
