/-
  SolidTree.Proofs.Double.Nearest
  ───────────────────────────────
  **PRODUCTS, QUOTIENTS AND WHOLE NUMBERS NEAR THEM.**

  Every number that is neither too small nor too large rounds to some double,
  and a product or quotient of doubles is the one that the exact product or
  quotient rounds to.  How far it is off is told in units of its own last
  digit, or relative to its size:

      overflow      — the least number that rounds to no double
      halfUnit x    — half a unit of the last binary digit of `x`
      precision     — the most by which a rounding changes a number, relative to it

  Main results:
    * `exists_roundsTo` — numbers in between round to a double
    * `mul_near`, `div_near` — products and quotients by a double of one or more
    * `ofScaled_near`, `ofScaled_exact` — scaled whole numbers, rounded once or kept
    * `round_spec` — the nearest whole number
-/
import SolidTree.Proofs.Double.Scientific
import SolidTree.Proofs.Double.Value

namespace SolidTree.Binary64

open Float.Model (UnpackedFloat)
open Float.Model.UnpackedFloat (Sign)

/-! ## §1. Nearest doubles. -/

/-- The least number that is too large for a double: in the middle between the greatest one
and the next power of two. -/
def overflow : ℚ := (2 ^ 53 - 1 / 2) * 2 ^ (971 : ℤ)

theorem overflow_lt : overflow < 2 ^ (1024 : ℤ) := by
  calc overflow < 2 ^ 53 * 2 ^ (971 : ℤ) :=
        mul_lt_mul_of_pos_right (by norm_num) (zpow_pos two_pos _)
    _ = 2 ^ (1024 : ℤ) := by rw [← zpow_natCast, ← zpow_add₀ two_ne_zero]; norm_num

/-- The whole number is the nearest one, and the even one of two at the same distance. -/
structure IsNearestEven (k : ℕ) (z : ℚ) : Prop where
  low : k - 1 / 2 ≤ z
  high : z ≤ k + 1 / 2
  inside : k % 2 = 1 → k - 1 / 2 < z ∧ z < k + 1 / 2

theorem exists_isNearestEven {z : ℚ} (hz : 0 ≤ z) : ∃ k : ℕ, IsNearestEven k z := by
  have hlow := Nat.floor_le hz
  have hhigh := Nat.lt_floor_add_one z
  generalize ⌊z⌋₊ = k at hlow hhigh
  rcases lt_trichotomy z (k + 1 / 2) with hlt | heq | hgt
  · exact ⟨k, by linarith, hlt.le, fun _ => ⟨by linarith, hlt⟩⟩
  · rcases Nat.mod_two_eq_zero_or_one k with heven | hodd
    · exact ⟨k, by linarith, heq.le, fun h => by omega⟩
    · exact ⟨k + 1, by push_cast; linarith, by push_cast; linarith, fun h => by omega⟩
  · refine ⟨k + 1, ?_, ?_, fun _ => ⟨?_, ?_⟩⟩ <;> push_cast <;> linarith

/-- Every number between the least double and the overflow has at most 53 digits before a
point, and all of them unless the exponent is the least one. -/
theorem exists_scaled {x : ℚ} (hleast : 2 ^ (-1074 : ℤ) ≤ x) (hless : x < overflow) :
    ∃ (z : ℚ) (e : ℤ), x = z * 2 ^ e ∧ -1074 ≤ e ∧ e ≤ 971 ∧ 1 ≤ z ∧ z < 2 ^ 53 ∧
      (2 ^ 52 ≤ z ∨ e = -1074) := by
  have hpos : 0 < x := (zpow_pos two_pos _).trans_le hleast
  obtain ⟨E, hE, hE'⟩ := exists_mem_Ico_zpow hpos one_lt_two
  have htop : E < 1024 := by
    have hlt := (hE.trans_lt hless).trans overflow_lt
    rwa [zpow_lt_zpow_iff_right₀ one_lt_two] at hlt
  obtain ⟨e, he⟩ : ∃ e, e = max (E - 52) (-1074) := ⟨_, rfl⟩
  have hunit : (0 : ℚ) < 2 ^ e := zpow_pos two_pos e
  obtain ⟨z, rfl⟩ : ∃ z, x = z * 2 ^ e := ⟨x / 2 ^ e, (div_mul_cancel₀ x hunit.ne').symm⟩
  have hlt : z < 2 ^ 53 := by
    refine lt_of_mul_lt_mul_right (hE'.trans_le ?_) hunit.le
    rw [← zpow_natCast, ← zpow_add₀ two_ne_zero]
    exact zpow_le_zpow_right₀ one_le_two (by push_cast; omega)
  have hfull : 2 ^ 52 ≤ z ∨ e = -1074 := by
    rcases le_or_gt (-1074) (E - 52) with h | h
    · left
      refine le_of_mul_le_mul_right (le_trans (le_of_eq ?_) hE) hunit
      rw [← zpow_natCast, ← zpow_add₀ two_ne_zero]
      congr 1
      push_cast
      omega
    · exact .inr (by omega)
  have hone : 1 ≤ z := by
    rcases hfull with h | rfl
    · exact le_trans (by norm_num) h
    · exact le_of_mul_le_mul_right (by rwa [one_mul]) hunit
  exact ⟨z, e, rfl, by omega, by omega, hone, hlt, hfull⟩

namespace IsNearestEven

variable {k : ℕ} {z : ℚ} {e : ℤ}

theorem roundsTo (h : IsNearestEven k z) (hfull : 2 ^ 52 ≤ z ∨ e = -1074) :
    RoundsTo (z * 2 ^ e) k e := by
  have hunit : (0 : ℚ) < 2 ^ e := zpow_pos two_pos e
  refine ⟨mul_le_mul_of_nonneg_right ?_ hunit.le, mul_le_mul_of_nonneg_right h.high hunit.le,
    fun hodd => ?_⟩
  · unfold reach
    split_ifs with hpower
    · have hle := hfull.resolve_right (by omega)
      rw [hpower.1]
      push_cast
      linarith
    · exact h.low
  · have hreach : reach k e = 1 / 2 := if_neg fun hpower => by omega
    rw [hreach]
    exact ⟨mul_lt_mul_of_pos_right (h.inside hodd).1 hunit,
      mul_lt_mul_of_pos_right (h.inside hodd).2 hunit⟩

/-- A number that rounds to one digit too many rounds to a power of two. -/
theorem roundsTo_carry (h : IsNearestEven (2 ^ 53) z) (hlt : z < 2 ^ 53) (he : -1074 ≤ e) :
    RoundsTo (z * 2 ^ e) (2 ^ 52) (e + 1) := by
  have hunit : (0 : ℚ) < 2 ^ e := zpow_pos two_pos e
  have hreach : reach (2 ^ 52) (e + 1) = 1 / 4 := if_pos ⟨rfl, by omega⟩
  have hlow := h.low
  push_cast at hlow
  refine ⟨?_, ?_, fun hodd => by omega⟩
  · calc ((2 ^ 52 : ℕ) - reach (2 ^ 52) (e + 1)) * 2 ^ (e + 1) = (2 ^ 53 - 1 / 2) * 2 ^ e := by
          rw [hreach, zpow_add_one₀ two_ne_zero]
          push_cast
          ring
      _ ≤ z * 2 ^ e := mul_le_mul_of_nonneg_right hlow hunit.le
  · calc z * 2 ^ e ≤ (2 ^ 53 + 1) * 2 ^ e := mul_le_mul_of_nonneg_right (by linarith) hunit.le
      _ = ((2 ^ 52 : ℕ) + 1 / 2) * 2 ^ (e + 1) := by
          rw [zpow_add_one₀ two_ne_zero]
          push_cast
          ring

end IsNearestEven

/-- **Every number between the least double and the overflow rounds to a double.** -/
theorem exists_roundsTo {x : ℚ} (hleast : 2 ^ (-1074 : ℤ) ≤ x) (hless : x < overflow) :
    ∃ m e, IsCanonical m e ∧ RoundsTo x m e := by
  obtain ⟨z, e, rfl, he, he', hone, hlt, hfull⟩ := exists_scaled hleast hless
  have hunit : (0 : ℚ) < 2 ^ e := zpow_pos two_pos e
  obtain ⟨k, hk⟩ := exists_isNearestEven (z := z) (by linarith)
  have hhigh := hk.high
  have hlow := hk.low
  have hkpos : (0 : ℚ) < k := by linarith
  have hk53 : (k : ℚ) < 2 ^ 53 + 1 := by linarith
  -- The nearest whole number may have one digit too many, and is a power of two then.
  rcases (Nat.lt_succ_iff.mp (by exact_mod_cast hk53) : k ≤ 2 ^ 53).lt_or_eq with hless' | rfl
  · have hkfull : 2 ^ 52 ≤ k ∨ e = -1074 := by
      refine hfull.imp_left fun h => ?_
      have hlt : (2 : ℚ) ^ 52 < k + 1 := by linarith
      exact Nat.lt_succ_iff.mp (by exact_mod_cast hlt)
    exact ⟨k, e, ⟨by exact_mod_cast hkpos, hless', he, he', hkfull⟩, hk.roundsTo hfull⟩
  · have hbelow : e < 971 := by
      by_contra h
      obtain rfl : e = 971 := by omega
      refine absurd hless (not_lt_of_ge (mul_le_mul_of_nonneg_right ?_ hunit.le))
      exact_mod_cast hlow
    exact ⟨2 ^ 52, e + 1, ⟨by norm_num, by norm_num, by omega, by omega, .inl le_rfl⟩,
      hk.roundsTo_carry hlt he⟩

/-! ## §2. How far off. -/

/-- What a number may be off by after one rounding, for every one of its size. -/
def precision : ℚ := 1 / 2 ^ 53

/-- Half a unit of the last binary digit. -/
def halfUnit (x : Float) : ℚ :=
  match x.toModel.unpack with
  | .finite _ _ e _ => 2 ^ (e - 1)
  | _ => 2 ^ (-1075 : ℤ)

namespace RoundsTo

variable {x : ℚ} {m : ℕ} {e : ℤ}

/-- A number is rounded by at most half a unit of the last digit. -/
theorem near (h : RoundsTo x m e) : |m * 2 ^ e - x| ≤ 2 ^ (e - 1) := by
  have hunit : (0 : ℚ) < 2 ^ e := zpow_pos two_pos e
  have hhalf : (2 : ℚ) ^ (e - 1) = 1 / 2 * 2 ^ e := by
    rw [zpow_sub_one₀ two_ne_zero]
    ring
  have hreach : reach m e * 2 ^ e ≤ 1 / 2 * 2 ^ e :=
    mul_le_mul_of_nonneg_right (reach_le m e) hunit.le
  rw [hhalf, abs_le]
  constructor <;> linarith [h.low, h.high]

/-- What is one or more rounds to a double that uses all of its digits. -/
theorem full_of_one_le (h : RoundsTo x m e) (hm : IsCanonical m e) (hx : 1 ≤ x) :
    2 ^ 52 ≤ m ∧ -1074 < e := by
  have hlt := hx.trans_lt (h.lt_two_zpow hm)
  rw [← zpow_zero (2 : ℚ), zpow_lt_zpow_iff_right₀ one_lt_two] at hlt
  exact ⟨hm.full.resolve_right (by omega), by omega⟩

/-- What is one or more does not round to less than one. -/
theorem one_le (h : RoundsTo x m e) (hm : IsCanonical m e) (hx : 1 ≤ x) :
    (1 : ℚ) ≤ m * 2 ^ e := by
  have hfull : (2 : ℚ) ^ 52 ≤ m := by exact_mod_cast (h.full_of_one_le hm hx).1
  have hlt := hx.trans_lt (h.lt_two_zpow hm)
  rw [← zpow_zero (2 : ℚ), zpow_lt_zpow_iff_right₀ one_lt_two] at hlt
  calc (1 : ℚ) = 2 ^ 52 * 2 ^ (-52 : ℤ) := by norm_num
    _ ≤ m * 2 ^ e :=
      mul_le_mul hfull (zpow_le_zpow_right₀ one_le_two (by omega)) (by positivity) (by positivity)

/-- A number of one or more is rounded by no more than one part in `2 ^ 53`. -/
theorem relative (h : RoundsTo x m e) (hm : IsCanonical m e) (hx : 1 ≤ x) :
    x * (1 - precision) ≤ m * 2 ^ e ∧ m * 2 ^ e ≤ x * (1 + precision) := by
  obtain ⟨hfull, he⟩ := h.full_of_one_le hm hx
  have hunit : (0 : ℚ) < 2 ^ e := zpow_pos two_pos e
  unfold precision
  rcases hfull.lt_or_eq with hlt | rfl
  · have hsize : 2 ^ 52 * 2 ^ e ≤ x := by
      refine le_trans (le_of_eq ?_) (h.two_zpow_le hlt)
      rw [zpow_add₀ two_ne_zero]
      norm_num
    have hreach : reach m e * 2 ^ e ≤ 1 / 2 * 2 ^ e :=
      mul_le_mul_of_nonneg_right (reach_le m e) hunit.le
    constructor <;> linarith [h.low, h.high]
  · -- Below a power of two the doubles are twice as dense.
    have hlow := h.low
    have hhigh := h.high
    rw [reach, if_pos ⟨rfl, he⟩] at hlow
    push_cast at hlow hhigh ⊢
    constructor <;> linarith

end RoundsTo

theorem halfUnit_nonneg (x : Float) : 0 ≤ halfUnit x := by
  unfold halfUnit
  split <;> exact (zpow_pos two_pos _).le

/-! ## §3. Products and quotients. -/

/-- The sign as a factor. -/
def signFactor (s : Sign) : ℚ := (s.apply 1 : ℤ)

theorem signFactor_positive : signFactor .positive = 1 := rfl

theorem signFactor_negative : signFactor .negative = -1 := rfl

theorem abs_signFactor (s : Sign) : |signFactor s| = 1 := by
  cases s <;> simp [signFactor, Sign.apply]

theorem cast_apply (s : Sign) (n : ℕ) : ((s.apply n : ℤ) : ℚ) = signFactor s * n := by
  cases s with
  | positive => simp [Sign.apply, signFactor_positive]
  | negative => simp [Sign.apply, signFactor_negative]

section Finite

variable {x y : Float} {s : Sign} {m : ℕ} {e : ℤ} {hpos : 0 < m}

theorem value_of_unpack (hx : x.toModel.unpack = .finite s m e hpos) :
    value x = signFactor s * (m * 2 ^ e) := by
  unfold value signFactor
  rw [hx]
  cases s with
  | positive => simp [rational, Sign.apply]
  | negative => simp [rational, Sign.apply]

theorem value_of_positive (hx : x.toModel.unpack = .finite .positive m e hpos) :
    value x = m * 2 ^ e := by
  rw [value_of_unpack hx]
  simp [signFactor, Sign.apply]

theorem abs_value_of_unpack (hx : x.toModel.unpack = .finite s m e hpos) :
    |value x| = m * 2 ^ e := by
  rw [value_of_unpack hx, abs_mul, abs_signFactor, one_mul, abs_of_pos (magnitude_pos hpos e)]

theorem value_of_zero (hx : x.toModel.unpack = .zero s) : value x = 0 := by
  unfold value
  rw [hx]
  rfl

theorem isFinite_of_unpack (hx : x.toModel.unpack = .finite s m e hpos) : isFinite x = true := by
  unfold isFinite
  rw [hx]

theorem isFinite_of_zero (hx : x.toModel.unpack = .zero s) : isFinite x = true := by
  unfold isFinite
  rw [hx]

/-- A finite double is a zero, or has a sign, a mantissa and an exponent. -/
theorem unpack_of_isFinite (h : isFinite x = true) :
    (∃ s, x.toModel.unpack = .zero s) ∨
      ∃ s m e, ∃ hpos : 0 < m, x.toModel.unpack = .finite s m e hpos := by
  unfold isFinite at h
  split at h
  next s m e hpos hx => exact .inr ⟨s, m, e, hpos, hx⟩
  next s hx => exact .inl ⟨s, hx⟩
  next => exact absurd h Bool.false_ne_true
  next => exact absurd h Bool.false_ne_true

/-- A double is within half a unit of what rounds to it. -/
theorem near_of_roundsTo (hx : x.toModel.unpack = .finite s m e hpos) {r : ℚ}
    (hround : RoundsTo r m e) : |value x - signFactor s * r| ≤ halfUnit x := by
  rw [value_of_unpack hx, ← mul_sub, abs_mul, abs_signFactor, one_mul, halfUnit, hx]
  exact hround.near

theorem unpack_pack_zero (s : Sign) : (Float.Model.pack (.zero s)).unpack = .zero s := by
  cases s <;> rfl

/-- A finite double of one or more. -/
def IsFactor (y : Float) : Prop :=
  ∃ m e, ∃ hpos : 0 < m, y.toModel.unpack = .finite .positive m e hpos ∧ (1 : ℚ) ≤ m * 2 ^ e

theorem IsFactor.one_le (hy : IsFactor y) : 1 ≤ value y := by
  obtain ⟨m, e, hpos, hunpack, hone⟩ := hy
  rwa [value_of_positive hunpack]

/-- What is one or more is no less than the least double after a division. -/
theorem IsFactor.least_le (hy : IsFactor y) {r : ℚ} (hr : 1 ≤ r) :
    2 ^ (-1074 : ℤ) ≤ r / value y := by
  have hone := hy.one_le
  obtain ⟨m, e, hpos, hunpack, -⟩ := hy
  have hlt : value y < 2 ^ (1024 : ℤ) := by
    rw [value_of_positive hunpack]
    exact (roundsTo_self.bounds (isCanonical_of_unpack hunpack)).2
  rw [le_div_iff₀ (by linarith)]
  calc (2 : ℚ) ^ (-1074 : ℤ) * value y ≤ 2 ^ (-1074 : ℤ) * 2 ^ (1024 : ℤ) :=
        mul_le_mul_of_nonneg_left hlt.le (zpow_pos two_pos _).le
    _ = 2 ^ (-50 : ℤ) := by rw [← zpow_add₀ two_ne_zero]; norm_num
    _ ≤ 1 := by norm_num
    _ ≤ r := hr

/-- A product by a double of one or more is what the exact product rounds to. -/
theorem mul_spec (hx : x.toModel.unpack = .finite s m e hpos) (hy : IsFactor y)
    (hless : m * 2 ^ e * value y < overflow) :
    ∃ n f, ∃ hn : IsCanonical n f,
      (x * y).toModel.unpack = .finite s n f hn.pos ∧ RoundsTo (m * 2 ^ e * value y) n f := by
  have hone := hy.one_le
  obtain ⟨m', e', hpos', hunpack, hfactor⟩ := hy
  have hcanonical := isCanonical_of_unpack hunpack
  have hfull := (roundsTo_self.full_of_one_le hcanonical hfactor).1
  have hvalue : value y = m' * 2 ^ e' := value_of_positive hunpack
  have hleast : 2 ^ (-1074 : ℤ) ≤ (m : ℚ) * 2 ^ e * value y := by
    have hm : (1 : ℚ) ≤ m := Nat.one_le_cast.mpr hpos
    calc (2 : ℚ) ^ (-1074 : ℤ) ≤ 2 ^ e :=
          zpow_le_zpow_right₀ one_le_two (isCanonical_of_unpack hx).least
      _ ≤ m * 2 ^ e := le_mul_of_one_le_left (zpow_pos two_pos e).le hm
      _ ≤ m * 2 ^ e * value y := le_mul_of_one_le_right (magnitude_pos hpos e).le hone
  obtain ⟨n, f, hn, hround⟩ := exists_roundsTo hleast hless
  refine ⟨n, f, hn, ?_, hround⟩
  rw [hvalue] at hround
  have hproduct := mul_eq hpos hpos' (hfull.trans (Nat.le_mul_of_pos_left m' hpos)) hn hround
    s .positive
  have hsign : s * .positive = s := by cases s <;> rfl
  rw [← hx, ← hunpack, hsign] at hproduct
  show (Float.Model.pack (UnpackedFloat.mul _ x.toModel.unpack y.toModel.unpack)).unpack = _
  rw [hproduct]
  exact unpack_pack hn s

/-- A quotient by a double of one or more is what the exact quotient rounds to. -/
theorem div_spec (hx : x.toModel.unpack = .finite s m e hpos) (hy : IsFactor y)
    (hleast : 2 ^ (-1074 : ℤ) ≤ m * 2 ^ e / value y) :
    ∃ n f, ∃ hn : IsCanonical n f,
      (x / y).toModel.unpack = .finite s n f hn.pos ∧ RoundsTo (m * 2 ^ e / value y) n f := by
  have hone := hy.one_le
  obtain ⟨m', e', hpos', hunpack, hfactor⟩ := hy
  have hvalue : value y = m' * 2 ^ e' := value_of_positive hunpack
  have hless : (m : ℚ) * 2 ^ e / value y < overflow := by
    have hm : IsCanonical m e := isCanonical_of_unpack hx
    have hmlt : (m : ℚ) + 1 ≤ 2 ^ 53 := by exact_mod_cast hm.lt
    calc (m : ℚ) * 2 ^ e / value y ≤ m * 2 ^ e := div_le_self (magnitude_pos hpos e).le hone
      _ ≤ m * 2 ^ (971 : ℤ) := by
        have := hm.greatest
        gcongr
        exact one_le_two
      _ < overflow := mul_lt_mul_of_pos_right (by linarith) (zpow_pos two_pos _)
  obtain ⟨n, f, hn, hround⟩ := exists_roundsTo hleast hless
  refine ⟨n, f, hn, ?_, hround⟩
  rw [hvalue] at hround
  have hquotient := div_eq hpos hpos' hn hround s .positive
  have hsign : s / .positive = s := by cases s <;> rfl
  rw [← hx, ← hunpack, hsign] at hquotient
  show (Float.Model.pack (UnpackedFloat.div _ x.toModel.unpack y.toModel.unpack)).unpack = _
  rw [hquotient]
  exact unpack_pack hn s

/-- **A product by a double of one or more is within half a unit of the exact one.** -/
theorem mul_near (hx : isFinite x = true) (hy : IsFactor y)
    (hless : |value x| * value y < overflow) :
    isFinite (x * y) = true ∧ |value (x * y) - value x * value y| ≤ halfUnit (x * y) := by
  rcases unpack_of_isFinite hx with ⟨s, hzero⟩ | ⟨s, m, e, hpos, hunpack⟩
  · obtain ⟨m, e, hpos, hfactor, -⟩ := hy
    have hproduct : (x * y).toModel.unpack = .zero s := by
      show (Float.Model.pack (UnpackedFloat.mul _ x.toModel.unpack y.toModel.unpack)).unpack = _
      rw [hzero, hfactor]
      cases s <;> exact unpack_pack_zero _
    refine ⟨isFinite_of_zero hproduct, ?_⟩
    rw [value_of_zero hproduct, value_of_zero hzero, zero_mul, sub_zero, abs_zero]
    exact halfUnit_nonneg _
  · rw [abs_value_of_unpack hunpack] at hless
    obtain ⟨n, f, hn, hproduct, hround⟩ := mul_spec hunpack hy hless
    refine ⟨isFinite_of_unpack hproduct, ?_⟩
    rw [value_of_unpack hunpack, mul_assoc]
    exact near_of_roundsTo hproduct hround

/-- **A quotient by a double of one or more is within half a unit of the exact one**, unless it
is smaller than the least double. -/
theorem div_near_of_least (hx : isFinite x = true) (hy : IsFactor y)
    (hleast : value x = 0 ∨ 2 ^ (-1074 : ℤ) ≤ |value x| / value y) :
    isFinite (x / y) = true ∧ |value (x / y) - value x / value y| ≤ halfUnit (x / y) := by
  rcases unpack_of_isFinite hx with ⟨s, hzero⟩ | ⟨s, m, e, hpos, hunpack⟩
  · obtain ⟨m, e, hpos, hfactor, -⟩ := hy
    have hquotient : (x / y).toModel.unpack = .zero s := by
      show (Float.Model.pack (UnpackedFloat.div _ x.toModel.unpack y.toModel.unpack)).unpack = _
      rw [hzero, hfactor]
      cases s <;> exact unpack_pack_zero _
    refine ⟨isFinite_of_zero hquotient, ?_⟩
    rw [value_of_zero hquotient, value_of_zero hzero, zero_div, sub_zero, abs_zero]
    exact halfUnit_nonneg _
  · have habs := abs_value_of_unpack hunpack
    have hnonzero : value x ≠ 0 := fun hzero => by
      rw [hzero, abs_zero] at habs
      exact (magnitude_pos hpos e).ne habs
    obtain ⟨n, f, hn, hquotient, hround⟩ :=
      div_spec hunpack hy (habs ▸ hleast.resolve_left hnonzero)
    refine ⟨isFinite_of_unpack hquotient, ?_⟩
    rw [value_of_unpack hunpack, mul_div_assoc]
    exact near_of_roundsTo hquotient hround

/-- A quotient by a double of one or more is within half a unit of the exact one, if the
dividend is zero or no less than one. -/
theorem div_near (hx : isFinite x = true) (hy : IsFactor y)
    (hwhole : value x = 0 ∨ 1 ≤ |value x|) :
    isFinite (x / y) = true ∧ |value (x / y) - value x / value y| ≤ halfUnit (x / y) :=
  div_near_of_least hx hy (hwhole.imp_right hy.least_le)

/-! ## §4. Scaled whole numbers. -/

/-- The whole number that is taken for `m / 2 ^ k` is within a half of it. -/
theorem nearestWhole_near (m k : ℕ) :
    |(((2 * m + 2 ^ k) / (2 * 2 ^ k) : ℕ) : ℚ) - m / 2 ^ k| ≤ 1 / 2 := by
  have hunit : 0 < 2 * 2 ^ k := by positivity
  have hlow := Nat.div_mul_le_self (2 * m + 2 ^ k) (2 * 2 ^ k)
  have hhigh := Nat.lt_div_mul_add (a := 2 * m + 2 ^ k) hunit
  generalize (2 * m + 2 ^ k) / (2 * 2 ^ k) = q at hlow hhigh
  have hunit' : (0 : ℚ) < 2 ^ k := by positivity
  have hm : (m : ℚ) / 2 ^ k * 2 ^ k = m := div_mul_cancel₀ _ hunit'.ne'
  have hlow' : (q : ℚ) * (2 * 2 ^ k) ≤ 2 * m + 2 ^ k := by exact_mod_cast hlow
  have hhigh' : (2 : ℚ) * m + 2 ^ k < q * (2 * 2 ^ k) + 2 * 2 ^ k := by exact_mod_cast hhigh
  rw [abs_le]
  constructor
  · refine le_of_mul_le_mul_right ?_ hunit'
    linarith
  · refine le_of_mul_le_mul_right ?_ hunit'
    linarith

theorem unpack_ofScaled (s : Sign) (q : ℕ) (E : ℤ) :
    (ofScaled s q E).toModel.unpack
      = (Float.Model.pack (UnpackedFloat.round .binary64 s q E)).unpack := rfl

theorem unpack_ofScaled_zero (s : Sign) (E : ℤ) :
    (ofScaled s 0 E).toModel.unpack = .zero s := by
  rw [unpack_ofScaled, round_zero]
  exact unpack_pack_zero s

theorem unpack_ofScaled_of_roundsTo {q : ℕ} {E : ℤ} (hq : 0 < q) {m : ℕ} {e : ℤ}
    (hm : IsCanonical m e) (hround : RoundsTo (q * 2 ^ E) m e) (s : Sign) :
    (ofScaled s q E).toModel.unpack = .finite s m e hm.pos := by
  rw [unpack_ofScaled, round_eq hq hm hround]
  exact unpack_pack hm s

/-- A scaled whole number is rounded once. -/
theorem ofScaled_near {q : ℕ} {E : ℤ} (hleast : -1074 ≤ E) (hless : (q : ℚ) * 2 ^ E < overflow)
    (s : Sign) :
    isFinite (ofScaled s q E) = true ∧
      |value (ofScaled s q E) - signFactor s * (q * 2 ^ E)| ≤ halfUnit (ofScaled s q E) := by
  rcases q.eq_zero_or_pos with rfl | hq
  · have hzero := unpack_ofScaled_zero s E
    refine ⟨isFinite_of_zero hzero, ?_⟩
    rw [value_of_zero hzero, Nat.cast_zero, zero_mul, mul_zero, sub_zero, abs_zero]
    exact halfUnit_nonneg _
  · have hone : (1 : ℚ) ≤ q := Nat.one_le_cast.mpr hq
    have hsize : (2 : ℚ) ^ (-1074 : ℤ) ≤ q * 2 ^ E :=
      (zpow_le_zpow_right₀ one_le_two hleast).trans
        (le_mul_of_one_le_left (zpow_pos two_pos E).le hone)
    obtain ⟨m, e, hm, hround⟩ := exists_roundsTo hsize hless
    have hunpack := unpack_ofScaled_of_roundsTo hq hm hround s
    exact ⟨isFinite_of_unpack hunpack, near_of_roundsTo hunpack hround⟩

/-- A scaled whole number of at most 53 binary digits is kept. -/
theorem ofScaled_exact {q : ℕ} (hlt : q < 2 ^ 53) {E : ℤ} (hleast : -1074 ≤ E)
    (hgreatest : E ≤ 971) (s : Sign) :
    isFinite (ofScaled s q E) = true ∧ value (ofScaled s q E) = signFactor s * (q * 2 ^ E) := by
  rcases q.eq_zero_or_pos with rfl | hq
  · have hzero := unpack_ofScaled_zero s E
    refine ⟨isFinite_of_zero hzero, ?_⟩
    rw [value_of_zero hzero, Nat.cast_zero, zero_mul, mul_zero]
  · obtain ⟨m, e, hm, hvalue⟩ := exists_scaled_double hq hlt hleast hgreatest
    have hunpack := unpack_ofScaled_of_roundsTo hq hm (hvalue ▸ roundsTo_self) s
    refine ⟨isFinite_of_unpack hunpack, ?_⟩
    rw [value_of_unpack hunpack, hvalue]

/-- **Rounding takes a finite double to a whole number within a half.** -/
theorem round_spec (hx : isFinite x = true) :
    isFinite (round x) = true ∧ ∃ k : ℤ, value (round x) = k ∧ |k - value x| ≤ 1 / 2 := by
  rcases unpack_of_isFinite hx with ⟨s, hzero⟩ | ⟨s, m, e, hpos, hunpack⟩
  · have hround : round x = x := by
      unfold round
      rw [hzero]
    rw [hround, value_of_zero hzero]
    exact ⟨hx, 0, Int.cast_zero.symm, by norm_num⟩
  · -- Without binary digits behind the point a double is whole already.
    rcases le_or_gt 0 e with he | he
    · have hround : round x = x := by
        unfold round
        rw [hunpack]
        exact if_pos he
      obtain ⟨k, rfl⟩ := Int.eq_ofNat_of_zero_le he
      have hvalue : value x = (s.apply (m * 2 ^ k : ℕ) : ℤ) := by
        rw [cast_apply, value_of_unpack hunpack, zpow_natCast]
        push_cast
        rfl
      rw [hround, hvalue]
      exact ⟨hx, _, rfl, by norm_num⟩
    · obtain ⟨k, rfl⟩ : ∃ k : ℕ, e = -k := ⟨e.natAbs, by omega⟩
      have hround : round x = ofScaled s ((2 * m + 2 ^ k) / (2 * 2 ^ k)) 0 := by
        unfold round
        rw [hunpack]
        show ite _ _ _ = _
        rw [if_neg (by omega), Int.natAbs_neg, Int.natAbs_natCast]
        rfl
      have hless : (2 * m + 2 ^ k) / (2 * 2 ^ k) < 2 ^ 53 := by
        have hm := (isCanonical_of_unpack hunpack).lt
        have hk : 1 ≤ 2 ^ k := Nat.one_le_two_pow
        refine (Nat.div_lt_iff_lt_mul (by positivity)).mpr ?_
        nlinarith
      have hnear := nearestWhole_near m k
      generalize (2 * m + 2 ^ k) / (2 * 2 ^ k) = q at hround hless hnear
      obtain ⟨hfinite, hvalue⟩ := ofScaled_exact hless (E := 0) (by norm_num) (by norm_num) s
      rw [zpow_zero, mul_one] at hvalue
      rw [hround, hvalue, value_of_unpack hunpack]
      refine ⟨hfinite, s.apply q, (cast_apply s q).symm, ?_⟩
      rw [cast_apply, ← mul_sub, abs_mul, abs_signFactor, one_mul, zpow_neg, zpow_natCast,
        ← div_eq_mul_inv]
      exact hnear

/-- A rounded double is within a half, and zero or no less than one. -/
theorem round_near (hx : isFinite x = true) :
    isFinite (round x) = true ∧ |value (round x) - value x| ≤ 1 / 2 ∧
      (value (round x) = 0 ∨ 1 ≤ |value (round x)|) := by
  obtain ⟨hfinite, k, hvalue, hnear⟩ := round_spec hx
  rw [hvalue]
  refine ⟨hfinite, hnear, ?_⟩
  rcases eq_or_ne k 0 with rfl | hk
  · exact .inl Int.cast_zero
  · exact .inr (by exact_mod_cast Int.one_le_abs hk)

end Finite

end SolidTree.Binary64
