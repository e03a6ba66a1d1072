/-
  SolidTree.Proofs.Exact.Angle
  ────────────────────────────
  **ANGLES THAT ARE RATIONAL NUMBERS.**

  Without rounding, reducing an angle takes whole turns off it and nothing
  else, and an angle counts as some quarter turns exactly if it is within the
  tolerance of one of their angles:

      normalize_spec       — the representative in `[0, 360)`
      quarters?_eq_some    — the quarters of an angle, up to whole turns
-/
import Mathlib.Tactic.Linarith
import Mathlib.Tactic.NormNum
import Mathlib.Tactic.Ring
import SolidTree.Geometry.QuarterTurn
import SolidTree.Number.Rational

namespace SolidTree

/-! ## §1. Roundings. -/

namespace Rational

theorem abs_eq (x : ℚ) : Scalar.abs x = |x| := by
  show (if x < 0 then -x else x) = |x|
  by_cases h : x < 0
  · rw [if_pos h, abs_of_neg h]
  · rw [if_neg h, abs_of_nonneg (not_lt.mp h)]

/-- A truncated number is whole and less than one away. -/
theorem truncate_spec (x : ℚ) : ∃ k : ℤ, truncate x = k ∧ |x - k| < 1 := by
  unfold truncate
  by_cases h : x < 0
  · refine ⟨-⌊-x⌋, ?_, ?_⟩
    · rw [if_pos h]
      push_cast
      rfl
    · have hle := Int.floor_le (-x)
      have hlt := Int.lt_floor_add_one (-x)
      rw [abs_lt]
      push_cast
      constructor <;> linarith
  · refine ⟨⌊x⌋, ?_, ?_⟩
    · rw [if_neg h]
      rfl
    · have hle := Int.floor_le x
      have hlt := Int.lt_floor_add_one x
      rw [abs_lt]
      constructor <;> linarith

/-- A rounded number is whole and at most one half away. -/
theorem round_spec (x : ℚ) : ∃ k : ℤ, Scalar.round x = k ∧ |x - k| ≤ 1 / 2 := by
  show ∃ k : ℤ, round x = k ∧ |x - k| ≤ 1 / 2
  unfold round
  by_cases h : x < 0
  · refine ⟨-⌊-x + 1 / 2⌋, ?_, ?_⟩
    · rw [if_pos h]
      push_cast
      rfl
    · have hle := Int.floor_le (-x + 1 / 2)
      have hlt := Int.lt_floor_add_one (-x + 1 / 2)
      rw [abs_le]
      push_cast
      constructor <;> linarith
  · refine ⟨⌊x + 1 / 2⌋, ?_, ?_⟩
    · rw [if_neg h]
      rfl
    · have hle := Int.floor_le (x + 1 / 2)
      have hlt := Int.lt_floor_add_one (x + 1 / 2)
      rw [abs_le]
      constructor <;> linarith

end Rational

/-! ## §2. One turn. -/

namespace Angle

/-- A reduced angle is in `[0, 360)` and differs from the angle by whole turns. -/
theorem normalize_spec (a : ℚ) :
    0 ≤ normalize a ∧ normalize a < 360 ∧ ∃ k : ℤ, normalize a = a - k * 360 := by
  obtain ⟨k, hk, hnear⟩ := Rational.truncate_spec (a / 360.0)
  have hrest : Scalar.remainder a (360.0 : ℚ) = a - k * 360 := by
    show a - Rational.truncate (a / 360.0) * 360.0 = a - k * 360
    rw [hk]
    norm_num
  -- What is left is less than one turn, in either direction.
  obtain ⟨hlow, hhigh⟩ := abs_lt.mp hnear
  have hlow' : -360 < a - k * 360 := by linarith
  have hhigh' : a - k * 360 < 360 := by linarith
  unfold normalize
  rw [hrest]
  by_cases hneg : a - k * 360 < 0
  · -- One turn more makes it positive, and exactly computed it stays below a full turn.
    have hfull : ¬ (360.0 : ℚ) ≤ a - k * 360 + 360.0 := by linarith
    simp only [if_pos hneg, if_neg hfull]
    refine ⟨by linarith, by linarith, k - 1, ?_⟩
    push_cast
    linarith
  · have hfull : ¬ (360.0 : ℚ) ≤ a - k * 360 := by linarith
    simp only [if_neg hneg, if_neg hfull]
    exact ⟨not_lt.mp hneg, hhigh', k, rfl⟩

end Angle

/-! ## §3. Quarters. -/

namespace QuarterTurn

/-- The angle is within the tolerance of `k` quarter turns. -/
def Near (a : ℚ) (k : ℤ) : Prop := |a - k * 90| ≤ tolerance

instance (a : ℚ) (k : ℤ) : Decidable (Near a k) :=
  inferInstanceAs (Decidable (|a - k * 90| ≤ tolerance))

theorem Near.lt_half {a : ℚ} {k : ℤ} (h : Near a k) : |a / 90 - k| < 1 / 2 := by
  have htolerance : (tolerance : ℚ) < 45 := by
    show (1e-9 : ℚ) < 45
    norm_num
  obtain ⟨hlow, hhigh⟩ := abs_le.mp h
  rw [abs_lt]
  constructor <;> linarith

/-- Whole turns do not matter. -/
theorem near_sub_turns {a : ℚ} {k : ℤ} (m : ℤ) : Near (a - m * 360) k ↔ Near a (k + 4 * m) := by
  unfold Near
  have h : a - m * 360 - k * 90 = a - ((k + 4 * m : ℤ) : ℚ) * 90 := by
    push_cast
    ring
  rw [h]

/-- What is computed of an angle: the nearest quarter of the reduced angle, unless that
is out of the tolerance. -/
theorem quarters?_spec (a : ℚ) :
    ∃ n : ℤ, 0 ≤ n ∧ |Angle.normalize a / 90 - n| ≤ 1 / 2 ∧
      quarters? a = if Near (Angle.normalize a) n then some (n.toNat % 4) else none := by
  obtain ⟨hlow, -, -⟩ := Angle.normalize_spec a
  obtain ⟨n, hn, hnear⟩ := Rational.round_spec (Angle.normalize a / 90)
  refine ⟨n, ?_, hnear, ?_⟩
  · obtain ⟨-, hhigh⟩ := abs_le.mp hnear
    have hgt : (-1 : ℚ) < n := by linarith
    have hgt' : (-1 : ℤ) < n := by exact_mod_cast hgt
    omega
  · have hninety : (90.0 : ℚ) = 90 := by norm_num
    have hwhole : Scalar.wholePart (n : ℚ) = n.toNat := by
      show (⌊(n : ℚ)⌋).toNat = n.toNat
      rw [Int.floor_intCast]
    unfold quarters?
    simp only [hninety, hn, hwhole, Rational.abs_eq]
    by_cases h : Near (Angle.normalize a) n
    · rw [if_pos h, if_neg (not_lt.mpr h)]
    · rw [if_neg h, if_pos (not_le.mp h)]

/-- **The quarters of an angle.** An angle counts as `q` quarters iff it is within the
tolerance of some number of quarter turns that is `q` up to whole turns. -/
theorem quarters?_eq_some {a : ℚ} {q : ℕ} :
    quarters? a = some q ↔ ∃ k : ℤ, Near a k ∧ (q : ℤ) = k % 4 := by
  obtain ⟨n, hnonneg, hnearest, hquarters⟩ := quarters?_spec a
  obtain ⟨-, -, m, hm⟩ := Angle.normalize_spec a
  rw [hquarters]
  constructor
  · intro h
    by_cases hnear : Near (Angle.normalize a) n
    · rw [if_pos hnear] at h
      rw [hm, near_sub_turns] at hnear
      have hq : n.toNat % 4 = q := Option.some.inj h
      exact ⟨n + 4 * m, hnear, by omega⟩
    · rw [if_neg hnear] at h
      cases h
  · rintro ⟨k, hnear, hq⟩
    have hnear' : Near (Angle.normalize a) (k - 4 * m) := by
      rw [hm, near_sub_turns, sub_add_cancel]
      exact hnear
    -- Both `n` and `k - 4 * m` are nearest to the angle, and less than one apart.
    have hsame : n = k - 4 * m := by
      obtain ⟨hlow, hhigh⟩ := abs_le.mp hnearest
      obtain ⟨hlow', hhigh'⟩ := abs_lt.mp hnear'.lt_half
      have hlt : (n : ℚ) < (k - 4 * m : ℤ) + 1 := by linarith
      have hgt : ((k - 4 * m : ℤ) : ℚ) < n + 1 := by linarith
      have hlt' : n < k - 4 * m + 1 := by exact_mod_cast hlt
      have hgt' : k - 4 * m < n + 1 := by exact_mod_cast hgt
      omega
    rw [← hsame] at hnear'
    rw [if_pos hnear']
    congr 1
    omega

end QuarterTurn

end SolidTree
