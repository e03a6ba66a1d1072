/-
  SolidTree.Proofs.Double.Scientific
  ──────────────────────────────────
  **DECIMALS READ AS DOUBLES.**

  A decimal is read as the double whose rounding interval it lies in.  Small
  decimals are read by one product or quotient of two doubles that are both
  exact, the others through quotients of any size; where a decimal is cut
  off unread, no double is near it:

      powerOfTen_unpack  — the powers of ten that are doubles
      ofScientific_eq    — both ways give the same double
-/
import SolidTree.Proofs.Double.Packing

namespace SolidTree.Binary64

open Float.Model
open Float.Model.UnpackedFloat

/-! ## §1. Whole numbers. -/

theorem roundsTo_self {m : ℕ} {e : ℤ} : RoundsTo (m * 2 ^ e) m e := by
  have hunit : (0 : ℚ) < 2 ^ e := zpow_pos two_pos e
  have hreach := reach_pos m e
  have hlow : (m - reach m e) * 2 ^ e < m * 2 ^ e :=
    mul_lt_mul_of_pos_right (by linarith) hunit
  have hhigh : (m : ℚ) * 2 ^ e < (m + 1 / 2) * 2 ^ e :=
    mul_lt_mul_of_pos_right (by linarith) hunit
  exact ⟨hlow.le, hhigh.le, fun _ => ⟨hlow, hhigh⟩⟩

/-- A whole number of at most 53 binary digits, scaled by no more than a double may be, is
the value of a double. -/
theorem exists_scaled_double {q : ℕ} (hq : 0 < q) (hlt : q < 2 ^ 53) {E : ℤ} (hleast : -1074 ≤ E)
    (hgreatest : E ≤ 971) : ∃ m e, IsCanonical m e ∧ (m : ℚ) * 2 ^ e = q * 2 ^ E := by
  have hlog : q.log2 < 53 := (Nat.log2_lt hq.ne').mpr hlt
  -- The digits that are free may be used up, unless the exponent becomes too small.
  obtain ⟨k, hk⟩ : ∃ k, k = min (52 - q.log2) (E + 1074).toNat := ⟨_, rfl⟩
  have htop : q * 2 ^ k < 2 ^ 53 := by
    calc q * 2 ^ k < 2 ^ (q.log2 + 1) * 2 ^ k :=
          Nat.mul_lt_mul_of_pos_right Nat.lt_log2_self (by positivity)
      _ = 2 ^ (q.log2 + 1 + k) := (pow_add 2 _ _).symm
      _ ≤ 2 ^ 53 := Nat.pow_le_pow_right two_pos (by omega)
  have hfull : 2 ^ 52 ≤ q * 2 ^ k ∨ E - k = -1074 := by
    rcases le_total (52 - q.log2) (E + 1074).toNat with h | h
    · left
      calc 2 ^ 52 = 2 ^ q.log2 * 2 ^ k := by rw [← pow_add]; congr 1; omega
        _ ≤ q * 2 ^ k := Nat.mul_le_mul_right _ (Nat.log2_self_le hq.ne')
    · exact .inr (by omega)
  refine ⟨q * 2 ^ k, E - k, ⟨by positivity, htop, by omega, by omega, hfull⟩, ?_⟩
  rw [zpow_sub₀ two_ne_zero, zpow_natCast]
  push_cast
  field_simp

/-- A whole number of at most 53 binary digits is a double that uses all of its digits. -/
theorem exists_double {n : ℕ} (hpos : 0 < n) (hlt : n < 2 ^ 53) :
    ∃ m e, IsCanonical m e ∧ 2 ^ 52 ≤ m ∧ (m : ℚ) * 2 ^ e = n := by
  obtain ⟨m, e, hm, hvalue⟩ := exists_scaled_double hpos hlt (E := 0) (by norm_num) (by norm_num)
  rw [zpow_zero, mul_one] at hvalue
  refine ⟨m, e, hm, hm.full.resolve_right fun he => ?_, hvalue⟩
  have hone : (1 : ℚ) ≤ n := Nat.one_le_cast.mpr hpos
  have hsmall : (m : ℚ) * 2 ^ e < 1 := by
    calc (m : ℚ) * 2 ^ e < 2 ^ 53 * 2 ^ e :=
          mul_lt_mul_of_pos_right (by exact_mod_cast hm.lt) (zpow_pos two_pos e)
      _ = 2 ^ (53 + e) := by rw [zpow_add₀ two_ne_zero]; norm_num
      _ ≤ 2 ^ (0 : ℤ) := zpow_le_zpow_right₀ one_le_two (by omega)
      _ = 1 := zpow_zero 2
  linarith

/-- A number is rounded to the double whose rounding interval it lies in, also if it comes
with too few digits. -/
theorem round_eq {M : ℕ} {E : ℤ} (hM : 0 < M) {m : ℕ} {e : ℤ} (hm : IsCanonical m e)
    (hround : RoundsTo (M * 2 ^ E) m e) (sign : Sign) :
    UnpackedFloat.round .binary64 sign M E = .finite sign m e hm.pos := by
  simp only [UnpackedFloat.round, decreaseExponent]
  generalize hk : (E - Format.binary64.targetExponent (totalExponent M E)).toNat = k
  have htotal : totalExponent (M <<< k) (E - k) = totalExponent M E := by
    have hlog : (M <<< k).log2 = M.log2 + k := by
      refine (Nat.log2_eq_iff (by rw [Nat.shiftLeft_eq]; positivity)).mpr ?_
      rw [Nat.shiftLeft_eq, pow_add, show M.log2 + k + 1 = M.log2 + 1 + k by omega, pow_add]
      exact ⟨Nat.mul_le_mul_right _ (Nat.log2_self_le hM.ne'),
        Nat.mul_lt_mul_of_pos_right Nat.lt_log2_self (by positivity)⟩
    rw [totalExponent, totalExponent, hlog]
    push_cast
    ring
  refine roundWithAccuracy_eq (locates_exact _) hm ?_ ?_ sign
  · convert hround using 1
    rw [Nat.shiftLeft_eq, zpow_sub₀ two_ne_zero, zpow_natCast]
    push_cast
    field_simp
  · rw [htotal]
    omega

theorem shiftRight_zero (n : ℕ) :
    (⟨0, false, false⟩ : ExtendedMantissa) >>> n = ⟨0, false, false⟩ := by
  show n.repeat ExtendedMantissa.shiftRightOne _ = _
  induction n with
  | zero => rfl
  | succ n ih =>
    show ExtendedMantissa.shiftRightOne (n.repeat _ _) = _
    rw [ih]
    rfl

theorem shiftToTargetExponent_zero (E : ℤ) :
    (UnpackedFloat.shiftToTargetExponent .binary64 0 E .exact).1 = ⟨0, false, false⟩ :=
  shiftRight_zero _

theorem roundWithAccuracy_zero (s : Sign) (E : ℤ) :
    UnpackedFloat.roundWithAccuracy .binary64 s 0 E .exact = .zero s := by
  have hrounded :
      (UnpackedFloat.shiftToTargetExponent .binary64 0 E .exact).1.roundedMantissa = 0 := by
    rw [shiftToTargetExponent_zero]
    rfl
  simp only [UnpackedFloat.roundWithAccuracy]
  refine dif_pos ?_
  rw [hrounded, shiftToTargetExponent_zero]

theorem round_zero (s : Sign) (E : ℤ) : UnpackedFloat.round .binary64 s 0 E = .zero s := by
  simp only [UnpackedFloat.round, UnpackedFloat.decreaseExponent, Nat.zero_shiftLeft,
    roundWithAccuracy_zero]

/-- A whole number of at most 53 binary digits is kept. -/
theorem unpack_toFloat {n : ℕ} (hpos : 0 < n) (hlt : n < 2 ^ 53) :
    ∃ m e, ∃ h : 0 < m,
      n.toUInt64.toFloat.toModel.unpack = .finite .positive m e h ∧ 2 ^ 52 ≤ m ∧
        (m : ℚ) * 2 ^ e = n := by
  obtain ⟨m, e, hm, hfull, hvalue⟩ := exists_double hpos hlt
  refine ⟨m, e, hm.pos, ?_, hfull, hvalue⟩
  have hround : UnpackedFloat.round .binary64 .positive n 0 = .finite .positive m e hm.pos :=
    round_eq hpos hm (by rw [zpow_zero, mul_one, ← hvalue]; exact roundsTo_self) _
  have hn : n.toUInt64.toNat = n := by
    rw [Nat.toUInt64_eq, UInt64.toNat_ofNat', Nat.mod_eq_of_lt (by omega)]
  have hnormal : UnpackedFloat.ofNat .binary64 n.toUInt64.toNat = .finite .positive m e hm.pos := by
    rw [hn, UnpackedFloat.ofNat, UnpackedFloat.ofInt, UnpackedFloat.normalize,
      Int.compare_eq_gt.mpr (by omega)]
    exact hround
  simp only [UInt64.toFloat, Float.Model.ofUInt64, UnpackedFloat.ofUInt64, hnormal]
  exact unpack_pack hm .positive

/-! ## §2. Powers of ten. -/

/-- The double is exactly `10 ^ n`. -/
def isPowerOfTen (x : Float) (n : ℕ) : Bool :=
  match x.toModel.unpack with
  | .finite .positive m e _ => m * 2 ^ e.toNat == 10 ^ n * 2 ^ (-e).toNat
  | _ => false

theorem isPowerOfTen_table : ∀ i : Fin 23,
    isPowerOfTen Float.exactlyRepresentablePowersOfTen[i] i = true := by
  decide +kernel

theorem unpack_of_isPowerOfTen {x : Float} {n : ℕ} (h : isPowerOfTen x n = true) :
    ∃ m e, ∃ hpos : 0 < m,
      x.toModel.unpack = .finite .positive m e hpos ∧ (m : ℚ) * 2 ^ e = 10 ^ n := by
  unfold isPowerOfTen at h
  split at h
  next m e hpos hx =>
    refine ⟨m, e, hpos, hx, ?_⟩
    have hvalue : (m : ℚ) * 2 ^ e.toNat = 10 ^ n * 2 ^ (-e).toNat := by
      exact_mod_cast beq_iff_eq.mp h
    have hexponent : (2 : ℚ) ^ e * 2 ^ (-e).toNat = 2 ^ e.toNat := by
      rw [← zpow_natCast, ← zpow_natCast, ← zpow_add₀ two_ne_zero]
      congr 1
      omega
    have hpositive : (0 : ℚ) < 2 ^ (-e).toNat := by positivity
    refine mul_right_cancel₀ hpositive.ne' ?_
    rw [mul_assoc, hexponent, hvalue]
  next => exact absurd h Bool.false_ne_true

theorem powerOfTen_unpack {n : ℕ} (h : n < Float.exactlyRepresentablePowersOfTen.size) :
    ∃ m e, ∃ hpos : 0 < m,
      Float.exactlyRepresentablePowersOfTen[n].toModel.unpack = .finite .positive m e hpos ∧
        (m : ℚ) * 2 ^ e = 10 ^ n :=
  unpack_of_isPowerOfTen (isPowerOfTen_table ⟨n, h⟩)

/-! ## §3. Decimals. -/

/-- A number that rounds to a double is neither too large nor too small for one. -/
theorem RoundsTo.bounds {x : ℚ} {m : ℕ} {e : ℤ} (h : RoundsTo x m e) (hm : IsCanonical m e) :
    2 ^ (-1075 : ℤ) ≤ x ∧ x < 2 ^ (1024 : ℤ) := by
  have hone : (1 : ℚ) ≤ m := Nat.one_le_cast.mpr hm.pos
  have hgreatest := hm.greatest
  constructor
  · calc (2 : ℚ) ^ (-1075 : ℤ) = 1 / 2 * 2 ^ (-1074 : ℤ) := by
          rw [show (-1075 : ℤ) = -1 + -1074 by norm_num, zpow_add₀ two_ne_zero]
          norm_num
      _ ≤ (m - reach m e) * 2 ^ e := by
        refine mul_le_mul ?_ (zpow_le_zpow_right₀ one_le_two hm.least) (by positivity) ?_ <;>
          linarith [reach_le m e]
      _ ≤ x := h.low
  · calc x < 2 ^ (53 + e) := h.lt_two_zpow hm
      _ ≤ 2 ^ (1024 : ℤ) := zpow_le_zpow_right₀ one_le_two (by omega)

/-- No double is cut off unread. -/
theorem exponent_bounds {c : ℕ} {k : ℤ} (hc : 0 < c) {m : ℕ} {e : ℤ} (hm : IsCanonical m e)
    (hround : RoundsTo (c * 10 ^ k) m e) : k ≤ 2048 ∧ -(2048 + (c.log2 : ℤ)) ≤ k := by
  obtain ⟨hlow, hhigh⟩ := hround.bounds hm
  have hone : (1 : ℚ) ≤ c := Nat.one_le_cast.mpr hc
  constructor
  · by_contra hk
    have hlarge : (2 : ℚ) ^ (1024 : ℤ) ≤ c * 10 ^ k := by
      calc (2 : ℚ) ^ (1024 : ℤ) ≤ 2 ^ k := zpow_le_zpow_right₀ one_le_two (by omega)
        _ ≤ 10 ^ k := by
          obtain ⟨n, rfl⟩ := Int.eq_ofNat_of_zero_le (show 0 ≤ k by omega)
          rw [zpow_natCast, zpow_natCast]
          exact pow_le_pow_left₀ two_pos.le (by norm_num) n
        _ ≤ c * 10 ^ k := le_mul_of_one_le_left (by positivity) hone
    linarith
  · by_contra hk
    obtain ⟨n, rfl⟩ : ∃ n : ℕ, k = -n := ⟨(-k).toNat, by omega⟩
    have hsmall : (c : ℚ) * 10 ^ (-(n : ℤ)) < 2 ^ (-1075 : ℤ) := by
      have hlog : (c : ℚ) < 2 ^ ((c.log2 + 1 : ℕ) : ℤ) := by exact_mod_cast Nat.lt_log2_self
      have hten : (10 : ℚ) ^ (-(n : ℤ)) ≤ 2 ^ (-(n : ℤ)) := by
        rw [zpow_neg, zpow_neg, zpow_natCast, zpow_natCast]
        exact inv_anti₀ (by positivity) (pow_le_pow_left₀ two_pos.le (by norm_num) n)
      calc (c : ℚ) * 10 ^ (-(n : ℤ))
          < 2 ^ ((c.log2 + 1 : ℕ) : ℤ) * 2 ^ (-(n : ℤ)) :=
            mul_lt_mul hlog hten (by positivity) (by positivity)
        _ = 2 ^ (((c.log2 + 1 : ℕ) : ℤ) + -(n : ℤ)) := (zpow_add₀ two_ne_zero _ _).symm
        _ ≤ 2 ^ (-1075 : ℤ) := zpow_le_zpow_right₀ one_le_two (by omega)
    linarith

/-- A small decimal is a product or quotient of two doubles. -/
theorem ofScientific_small {c : ℕ} {k : ℤ} (hc : 0 < c) (hlt : c < 2 ^ 53) (hk : k.natAbs ≤ 22)
    {m : ℕ} {e : ℤ} (hm : IsCanonical m e) (hround : RoundsTo (c * 10 ^ k) m e) :
    Float.ofScientific c (k < 0) k.natAbs
      = .ofModel (Float.Model.pack (.finite .positive m e hm.pos)) := by
  obtain ⟨m₁, e₁, hpos₁, h₁, hfull, hvalue₁⟩ := unpack_toFloat hc hlt
  have hsize : k.natAbs < Float.exactlyRepresentablePowersOfTen.size := Nat.lt_succ_of_le hk
  obtain ⟨m₂, e₂, hpos₂, h₂, hvalue₂⟩ := powerOfTen_unpack hsize
  unfold Float.ofScientific
  rw [dif_pos ⟨hlt, hk⟩]
  simp only [decide_eq_true_eq]
  split_ifs with hneg
  · have hquotient := div_eq hpos₁ hpos₂ hm (by
      rw [hvalue₁, hvalue₂]
      convert hround using 1
      rw [div_eq_mul_inv, ← zpow_natCast, ← zpow_neg]
      congr 2
      omega) .positive .positive
    rw [← h₁, ← h₂] at hquotient
    exact congrArg (fun x => Float.ofModel (Float.Model.pack x)) hquotient
  · have hdigits := hfull.trans (Nat.le_mul_of_pos_right m₁ hpos₂)
    have hproduct := mul_eq hpos₁ hpos₂ hdigits hm (by
      rw [hvalue₁, hvalue₂]
      convert hround using 1
      rw [← zpow_natCast]
      congr 2
      omega) .positive .positive
    rw [← h₁, ← h₂] at hproduct
    exact congrArg (fun x => Float.ofModel (Float.Model.pack x)) hproduct

/-- A large decimal is a quotient of two numbers of any size. -/
theorem ofScientific_large {c : ℕ} {k : ℤ} (hc : 0 < c) {m : ℕ} {e : ℤ} (hm : IsCanonical m e)
    (hround : RoundsTo (c * 10 ^ k) m e) :
    UnpackedFloat.ofScientific .binary64 c k = .finite .positive m e hm.pos := by
  obtain ⟨hhigh, hlow⟩ := exponent_bounds hc hm hround
  unfold UnpackedFloat.ofScientific
  rw [dif_neg hc.ne', if_neg (by norm_num; omega), if_neg (by norm_num; omega)]
  split_ifs with hk
  · have hfull : 2 ^ 52 ≤ c <<< 53 := by
      rw [Nat.shiftLeft_eq]
      omega
    have hproduct : RoundsTo ((c <<< 53 : ℕ) * 2 ^ (-53 : ℤ) * ((10 ^ k.toNat : ℕ) * 2 ^ (0 : ℤ)))
        m e := by
      convert hround using 1
      have hpower : (10 : ℚ) ^ k = 10 ^ k.toNat := by
        rw [← zpow_natCast, Int.toNat_of_nonneg hk]
      rw [hpower, Nat.shiftLeft_eq, zpow_neg, zpow_zero]
      push_cast
      field_simp
    exact mul_eq (by omega) (by positivity) (hfull.trans (Nat.le_mul_of_pos_right _ (by positivity)))
      hm hproduct .positive .positive
  · refine div_eq hc (by positivity) hm ?_ .positive .positive
    convert hround using 1
    have hpower : (10 : ℚ) ^ k = (10 ^ (-k).toNat)⁻¹ := by
      rw [← zpow_natCast, ← zpow_neg, Int.toNat_of_nonneg (by omega), neg_neg]
    rw [hpower, zpow_zero]
    push_cast
    ring

/-- **A decimal is read as the double whose rounding interval it lies in.** -/
theorem ofScientific_eq {c : ℕ} {k : ℤ} (hc : 0 < c) {m : ℕ} {e : ℤ} (hm : IsCanonical m e)
    (hround : RoundsTo (c * 10 ^ k) m e) :
    Float.ofScientific c (k < 0) k.natAbs
      = .ofModel (Float.Model.pack (.finite .positive m e hm.pos)) := by
  by_cases hsmall : c < 2 ^ 53 ∧ k.natAbs ≤ 22
  · exact ofScientific_small hc hsmall.1 hsmall.2 hm hround
  · have hexponent : (if decide (k < 0) = true then Int.negOfNat k.natAbs else Int.ofNat k.natAbs) = k := by
      simp only [decide_eq_true_eq]
      split_ifs with hneg <;> simp only [Int.negOfNat_eq, Int.ofNat_eq_natCast] <;> omega
    unfold Float.ofScientific
    rw [dif_neg hsmall, hexponent]
    simp only [Float.Model.ofScientific, ofScientific_large hc hm hround]

end SolidTree.Binary64
