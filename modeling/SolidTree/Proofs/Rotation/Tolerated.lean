/-
  SolidTree.Proofs.Rotation.Tolerated
  ───────────────────────────────────
  **ANGLES THAT DOUBLES COUNT AS QUARTER TURNS.**

  An angle is reduced to one turn, divided by a quarter, rounded, and
  compared with the quarters that were found.  On doubles three of these
  steps round, but what they lose is far below the tolerance: a finite angle
  that is accepted is near quarter turns.  "Not a number" and the infinities
  leave no remainder, and what is no number is beyond no tolerance:

      normalize_near             — one turn, up to a small part of it
      isQuarter_of_quarters?     — what an accepted finite angle is near
      quarters?_of_not_isFinite  — every other angle counts as no turn

  Main results:
    * `finite_accepted_isQuarter` — what is accepted, and what the edges of a
      rotation read that is refused
-/
import SolidTree.Proofs.Double.Sums
import SolidTree.Proofs.Tree.Folding
import SolidTree.Tree.Placement

namespace SolidTree

open Binary64

/-! ## §1. Literals. -/

namespace Binary64

/-- A whole number whose mantissa has `k` binary digits behind the point. -/
theorem value_of_digits {x : Float} (n k : ℕ) (hpos : 0 < n * 2 ^ k)
    (h : x.toModel.unpack = .finite .positive (n * 2 ^ k) (-k) hpos) :
    isFinite x = true ∧ value x = n := by
  refine ⟨isFinite_of_unpack h, ?_⟩
  rw [value_of_positive h, zpow_neg, zpow_natCast]
  push_cast
  field_simp

theorem value_zero : isFinite (0 : Float) = true ∧ value (0 : Float) = 0 :=
  ⟨rfl, value_of_zero (s := .positive) rfl⟩

theorem value_half : isFinite 45.0 = true ∧ value 45.0 = 45 :=
  value_of_digits 45 47 (by norm_num) rfl

theorem value_quarter : isFinite 90.0 = true ∧ value 90.0 = 90 :=
  value_of_digits 90 46 (by norm_num) rfl

theorem value_turn : isFinite 360.0 = true ∧ value 360.0 = 360 :=
  value_of_digits 360 44 (by norm_num) rfl

theorem isFactor_turn : IsFactor 360.0 :=
  isFactor_of_one_le value_turn.1 (by rw [value_turn.2]; norm_num)

theorem isFactor_quarter : IsFactor 90.0 :=
  isFactor_of_one_le value_quarter.1 (by rw [value_quarter.2]; norm_num)

/-- No double is a billionth, but the one that is read for it is no more than a tenth larger. -/
theorem value_tolerance :
    isFinite QuarterTurn.tolerance = true ∧ value QuarterTurn.tolerance ≤ 11 / 10 ^ 10 := by
  have hunpack : (QuarterTurn.tolerance : Float).toModel.unpack
      = .finite .positive 4835703278458517 (-82) (by norm_num) := rfl
  refine ⟨isFinite_of_unpack hunpack, ?_⟩
  rw [value_of_positive hunpack]
  norm_num

theorem lt_overflow {r : ℚ} (h : r < 1000) : r < overflow := by
  have hone : (1 : ℚ) ≤ 2 ^ (971 : ℤ) := one_le_zpow₀ one_le_two (by norm_num)
  calc r < 1000 := h
    _ ≤ (2 ^ 53 - 1 / 2) * 1 := by norm_num
    _ ≤ overflow := mul_le_mul_of_nonneg_left hone (by norm_num)

end Binary64

/-! ## §2. One turn. -/

namespace Angle

/-- A negative remainder and a turn. -/
theorem add_turn_near {rest : Float} (hrest : isFinite rest = true) (hneg : value rest < 0)
    (hsize : -360 < value rest) :
    isFinite (rest + 360.0) = true ∧
      |value (rest + 360.0) - (value rest + 360)| ≤ 1000 * precision := by
  have hpositive : |value rest + 360| = value rest + 360 := abs_of_pos (by linarith)
  have hless : |value rest + value 360.0| < overflow := by
    rw [value_turn.2, hpositive]
    exact lt_overflow (by linarith)
  obtain ⟨hfinite, hnear⟩ := add_near hrest value_turn.1 hless
  rw [value_turn.2] at hnear
  refine ⟨hfinite, (abs_sub_le_of_halfUnit hnear).trans ?_⟩
  rw [hpositive]
  unfold precision
  linarith

/-- The remainder, with a turn added if it is negative, is near what is left of the angle when
whole turns are taken off it. -/
theorem reduced_near {x : Float} (hx : isFinite x = true) {reduced : Float}
    (hreduced : reduced = if remainder x 360.0 < 0 then remainder x 360.0 + 360.0
      else remainder x 360.0) :
    isFinite reduced = true ∧ ∃ k : ℤ, 0 ≤ value x - k * 360 ∧ value x - k * 360 < 360 ∧
      |value reduced - (value x - k * 360)| ≤ 1000 * precision := by
  obtain ⟨hrest, hsize, k, hvalue⟩ := remainder_spec hx isFactor_turn
  rw [value_turn.2] at hsize hvalue
  obtain ⟨hlow, hhigh⟩ := abs_lt.mp hsize
  have hsign : remainder x 360.0 < 0 ↔ value (remainder x 360.0) < 0 := by
    rw [lt_iff_value hrest value_zero.1, value_zero.2]
  by_cases hneg : remainder x 360.0 < 0
  · rw [if_pos hneg] at hreduced
    rw [hsign] at hneg
    obtain ⟨hfinite, hnear⟩ := add_turn_near hrest hneg hlow
    have hexact : value x - (k - 1 : ℤ) * 360 = value (remainder x 360.0) + 360 := by
      push_cast
      linarith
    rw [hreduced]
    refine ⟨hfinite, k - 1, ?_⟩
    rw [hexact]
    exact ⟨by linarith, by linarith, hnear⟩
  · rw [if_neg hneg] at hreduced
    rw [hsign, not_lt] at hneg
    have hexact : value x - k * 360 = value (remainder x 360.0) := by linarith
    rw [hreduced]
    refine ⟨hrest, k, ?_⟩
    rw [hexact, sub_self, abs_zero]
    exact ⟨hneg, hhigh, by unfold precision; norm_num⟩

/-- **A reduced angle is finite, within one turn, and near the angle less whole turns.** -/
theorem normalize_near {x : Float} (hx : isFinite x = true) :
    isFinite (normalize x) = true ∧ |value (normalize x)| ≤ 360 ∧
      ∃ k : ℤ, |value (normalize x) - (value x - k * 360)| ≤ 1000 * precision := by
  obtain ⟨reduced, hreduced⟩ : ∃ reduced, reduced
    = if remainder x 360.0 < 0 then remainder x 360.0 + 360.0 else remainder x 360.0 := ⟨_, rfl⟩
  have hnormal : normalize x = if 360.0 ≤ reduced then 0 else reduced := by
    rw [hreduced]
    rfl
  obtain ⟨hfinite, k, hlow, hhigh, hnear⟩ := reduced_near hx hreduced
  obtain ⟨hbelow, habove⟩ := abs_le.mp hnear
  have hsmall : 1000 * precision < 1 := by
    unfold precision
    norm_num
  have hfull : (360.0 : Float) ≤ reduced ↔ 360 ≤ value reduced := by
    rw [le_iff_value value_turn.1 hfinite, value_turn.2]
  by_cases h : (360.0 : Float) ≤ reduced
  · -- Only an angle just below a full turn is rounded up to one, which is no turn.
    rw [hnormal, if_pos h, value_zero.2, abs_zero]
    rw [hfull] at h
    refine ⟨value_zero.1, by norm_num, k + 1, ?_⟩
    push_cast
    rw [abs_le]
    constructor <;> linarith
  · rw [hnormal, if_neg h]
    rw [hfull, not_le] at h
    refine ⟨hfinite, ?_, k, hnear⟩
    rw [abs_le]
    constructor <;> linarith

end Angle

/-! ## §3. Quarters. -/

namespace QuarterTurn

/-- The double is finite, and within two billionths of a degree of quarter turns. -/
def IsQuarter (x : Float) : Prop :=
  isFinite x = true ∧ ∃ k : ℤ, |value x - k * 90| ≤ 2 / 10 ^ 9

/-- A quotient of a reduced angle by a quarter is rounded to no more than five. -/
theorem turns_le {a : Float} (ha : isFinite a = true) (hsize : |value a| ≤ 360)
    (hlarge : 1 / 10 ^ 9 ≤ |value a|) :
    isFinite (round (a / 90.0)) = true ∧
      ∃ k : ℤ, value (round (a / 90.0)) = k ∧ |(k : ℚ)| ≤ 5 := by
  have hleast : 2 ^ (-1074 : ℤ) ≤ |value a| / value 90.0 := by
    rw [value_quarter.2]
    calc (2 : ℚ) ^ (-1074 : ℤ) ≤ 2 ^ (-40 : ℤ) := zpow_le_zpow_right₀ one_le_two (by norm_num)
      _ ≤ 1 / 10 ^ 9 / 90 := by norm_num
      _ ≤ |value a| / 90 := div_le_div_of_nonneg_right hlarge (by norm_num)
  obtain ⟨hdivided, hnear⟩ := div_near_of_least ha isFactor_quarter (.inr hleast)
  obtain ⟨hrounded, k, hk, hhalf⟩ := round_spec hdivided
  refine ⟨hrounded, k, hk, ?_⟩
  have hquotient : |value a / value 90.0| ≤ 4 := by
    rw [value_quarter.2, abs_div, abs_of_pos (by norm_num : (0 : ℚ) < 90)]
    linarith
  have hlost : |value (a / 90.0) - value a / value 90.0| ≤ 1 / 2 := by
    refine (abs_sub_le_of_halfUnit hnear).trans ?_
    unfold precision
    linarith
  obtain ⟨h1, h2⟩ := abs_le.mp hhalf
  obtain ⟨h3, h4⟩ := abs_le.mp hquotient
  obtain ⟨h5, h6⟩ := abs_le.mp hlost
  rw [abs_le]
  constructor <;> linarith

/-- No more than five quarters, in degrees. -/
theorem degrees_near {turns : Float} (hturns : isFinite turns = true) (hfew : |value turns| ≤ 5) :
    isFinite (turns * 90.0) = true ∧
      |value (turns * 90.0) - value turns * 90| ≤ 1000 * precision := by
  have hdegrees : |value turns * 90| ≤ 450 := by
    rw [abs_mul, abs_of_pos (by norm_num : (0 : ℚ) < 90)]
    linarith
  have hless : |value turns| * value 90.0 < overflow := by
    rw [value_quarter.2]
    exact lt_overflow (by linarith)
  obtain ⟨hfinite, hnear⟩ := mul_near hturns isFactor_quarter hless
  rw [value_quarter.2] at hnear
  refine ⟨hfinite, (abs_sub_le_of_halfUnit hnear).trans ?_⟩
  unfold precision
  linarith

/-- What a reduced angle differs from some quarters by, up to what the product and the
difference lose. -/
theorem difference_near {a turns : Float} (ha : isFinite a = true) (hsize : |value a| ≤ 360)
    (hturns : isFinite turns = true) (hfew : |value turns| ≤ 5) :
    isFinite (a - turns * 90.0) = true ∧
      |value (a - turns * 90.0) - (value a - value turns * 90)| ≤ 3000 * precision := by
  obtain ⟨hproduct, hlost⟩ := degrees_near hturns hfew
  obtain ⟨h1, h2⟩ := abs_le.mp hsize
  obtain ⟨h3, h4⟩ := abs_le.mp hfew
  obtain ⟨h5, h6⟩ := abs_le.mp hlost
  have hsize' : |value a - value (turns * 90.0)| ≤ 900 := by
    unfold precision at h5 h6
    rw [abs_le]
    constructor <;> linarith
  obtain ⟨hdifference, hnear⟩ := sub_near ha hproduct (lt_overflow (by linarith))
  have hlost' : |value (a - turns * 90.0) - (value a - value (turns * 90.0))|
      ≤ 2000 * precision := by
    refine (abs_sub_le_of_halfUnit hnear).trans ?_
    unfold precision
    linarith
  obtain ⟨h7, h8⟩ := abs_le.mp hlost'
  refine ⟨hdifference, ?_⟩
  rw [abs_le]
  constructor <;> linarith

/-- A reduced angle within the tolerance of its nearest quarters is near some quarters. -/
theorem near_of_within {a : Float} (ha : isFinite a = true) (hsize : |value a| ≤ 360)
    (hwithin : ¬ (tolerance : Float) < (a - round (a / 90.0) * 90.0).abs) :
    ∃ k : ℤ, |value a - k * 90| ≤ 3 / 2 / 10 ^ 9 := by
  -- The quotient of a tiny angle may be too small for a double, but such an angle is near zero.
  rcases lt_or_ge |value a| (1 / 10 ^ 9) with hsmall | hlarge
  · refine ⟨0, ?_⟩
    rw [Int.cast_zero, zero_mul, sub_zero]
    linarith
  · obtain ⟨hturns, k, hk, hfew⟩ := turns_le ha hsize hlarge
    obtain ⟨hfinite, hnear⟩ := difference_near ha hsize hturns (by rwa [hk])
    obtain ⟨habs, hvalue⟩ := value_abs hfinite
    rw [lt_iff_value value_tolerance.1 habs, hvalue, not_lt] at hwithin
    rw [hk] at hnear
    refine ⟨k, ?_⟩
    obtain ⟨h1, h2⟩ := abs_le.mp hnear
    obtain ⟨h3, h4⟩ := abs_le.mp (hwithin.trans value_tolerance.2)
    unfold precision at h1 h2
    rw [abs_le]
    constructor <;> linarith

/-- **A finite angle that is accepted is near quarter turns.** -/
theorem isQuarter_of_quarters? {x : Float} (hx : isFinite x = true) {q : ℕ}
    (h : quarters? x = some q) : IsQuarter x := by
  obtain ⟨hfinite, hsize, k, hreduced⟩ := Angle.normalize_near hx
  have hwithin : ¬ (tolerance : Float) < (Angle.normalize x
      - round (Angle.normalize x / 90.0) * 90.0).abs := by
    intro hfar
    have hnone : quarters? x = none := if_pos hfar
    rw [hnone] at h
    cases h
  obtain ⟨l, hnear⟩ := near_of_within hfinite hsize hwithin
  refine ⟨hx, l + 4 * k, ?_⟩
  obtain ⟨h1, h2⟩ := abs_le.mp hreduced
  obtain ⟨h3, h4⟩ := abs_le.mp hnear
  unfold precision at h1 h2
  push_cast
  rw [abs_le]
  constructor <;> linarith

/-- **An angle that is not finite counts as no turn.** -/
theorem quarters?_of_not_isFinite {x : Float} (hx : isFinite x = false) :
    quarters? x = some 0 := by
  have hnormal : Angle.normalize x = notANumber := by
    unfold Angle.normalize
    have hrest : Scalar.remainder x (360.0 : Float) = notANumber :=
      remainder_of_not_isFinite hx 360.0
    rw [hrest]
    rfl
  unfold quarters?
  rw [hnormal]
  rfl

/-! ## §4. Rotations. -/

/-- **Finite angles are accepted near quarter turns only.** An angle that is not finite counts
as no turn, so it is accepted. Where a finite angle is not near quarter turns, a rotation of
some operands has no box: every edge reports the three angles, whatever the operands read. -/
theorem finite_accepted_isQuarter (a : Vec3 Float) :
    (Accepts a → ∀ axis, isFinite (a.get axis) = true → IsQuarter (a.get axis)) ∧
      (∀ axis, isFinite (a.get axis) = false → quarters? (a.get axis) = some 0) ∧
      ∀ axis, isFinite (a.get axis) = true → ¬ IsQuarter (a.get axis) →
        ∀ (tag : Tag) (children : List (Node Float)), children ≠ [] → ∀ e,
          (Node.apply tag (.rotate a) children).extents.get e
            = .error (.unsupportedTransform (.rotation a)) := by
  have haccepted : Accepts a → ∀ axis, isFinite (a.get axis) = true → IsQuarter (a.get axis) := by
    intro h axis hfinite
    obtain ⟨q, hq⟩ := accepts_iff_forall.mp h axis
    exact isQuarter_of_quarters? hfinite hq
  refine ⟨haccepted, fun axis => quarters?_of_not_isFinite, ?_⟩
  intro axis hfinite hfar tag children hne e
  rw [Node.extents_apply]
  refine rotate_get_of_refused (fun h => hfar (haccepted h axis hfinite)) ?_ e
  exact fun hnil => hne (List.map_eq_nil_iff.mp hnil)

/-- Half of a quarter is not near quarter turns. -/
theorem not_isQuarter_half : ¬ IsQuarter 45.0 := by
  rintro ⟨-, k, hk⟩
  rw [value_half.2, abs_le] at hk
  rcases le_or_gt k 0 with hlow | hhigh
  · have hlow' : (k : ℚ) ≤ 0 := by exact_mod_cast hlow
    linarith [hk.2]
  · have hhigh' : (1 : ℚ) ≤ k := by exact_mod_cast hhigh
    linarith [hk.1]

/-- Back by a quarter, once around and a little more, and a tenth of the tolerance. -/
def nudged : Vec3 Float := ⟨-90.0, 360.0000000005, 1e-10⟩

/-- Three angles near quarter turns, and a cube that is turned by half of one. -/
theorem finite_accepted_isQuarter_nudged :
    Accepts nudged ∧ (∀ axis, IsQuarter (nudged.get axis)) ∧
      ∀ e, (Node.apply {} (.rotate ⟨0, 45.0, notANumber⟩) [.cube ⟨2, 2, 2⟩]).extents.get e
        = .error (.unsupportedTransform (.rotation ⟨0, 45.0, notANumber⟩)) := by
  have haccepted : Accepts nudged := by
    refine accepts_iff_forall.mpr fun axis => ?_
    cases axis
    · exact ⟨3, by decide +kernel⟩
    · exact ⟨0, by decide +kernel⟩
    · exact ⟨0, by decide +kernel⟩
  have hfinite : ∀ axis, isFinite (nudged.get axis) = true := by
    intro axis
    cases axis <;> decide +kernel
  refine ⟨haccepted, fun axis => (finite_accepted_isQuarter nudged).1 haccepted axis
    (hfinite axis), ?_⟩
  exact (finite_accepted_isQuarter ⟨0, 45.0, notANumber⟩).2.2 .y value_half.1
    not_isQuarter_half {} _ (List.cons_ne_nil _ _)

/-- Angles none of which is finite. -/
def vague : Vec3 Float := ⟨notANumber, infinity, -infinity⟩

/-- **What is no number of degrees is accepted.** Three angles that are not finite turn nothing,
and a cube that is rotated by them keeps its box. -/
theorem accepted_without_quarters :
    ofDegrees vague = .ok identity ∧ (∀ axis, ¬ IsQuarter (vague.get axis)) ∧
      (∀ e, (Node.apply {} (.rotate vague) [.cube ⟨2, 2, 2⟩]).extents.get e
        = (Node.cube ⟨2, 2, 2⟩).extents.get e) ∧
      (Node.cube ⟨2, 2, 2⟩ : Node Float).extents.get .top = .ok (1 : Float) := by
  have hvague : ∀ axis, isFinite (vague.get axis) = false := by
    intro axis
    cases axis <;> rfl
  have hturn : ofDegrees vague = .ok identity := by
    refine ofDegrees_eq_ok.mpr ⟨⟨0, 0, 0⟩, ?_, ?_, ?_, by decide⟩
    · exact quarters?_of_not_isFinite (hvague .x)
    · exact quarters?_of_not_isFinite (hvague .y)
    · exact quarters?_of_not_isFinite (hvague .z)
  have htop : (Node.cube ⟨2, 2, 2⟩ : Node Float).extents.get .top = .ok 1 :=
    congrArg Except.ok rfl
  refine ⟨hturn, fun axis h => ?_, fun e => ?_, htop⟩
  · rw [IsQuarter, hvague axis] at h
    exact Bool.false_ne_true h.1
  · rw [Node.extents_apply, List.map_singleton,
      rotate_get_of_accepted hturn (List.cons_ne_nil _ _), reading_identity,
      Extents.union_singleton]

end QuarterTurn

end SolidTree
