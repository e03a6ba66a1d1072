/-
  SolidTree.Proofs.Double.Sums
  ────────────────────────────
  **SUMS, DIFFERENCES AND REMAINDERS.**

  A sum is formed exactly, at the smaller of the two exponents, and then
  rounded once; a difference is the sum with the negated double.  A remainder
  has no more binary digits than the dividend or the divisor, whichever has
  the smaller exponent, and nothing of it is rounded.

  Main results:
    * `add_near`, `sub_near` — sums and differences, to half a unit
    * `remainder_spec` — what a whole quotient leaves, exactly
    * `abs_sub_le_of_halfUnit` — half a unit, told by the exact result
    * `lt_iff_value`, `le_iff_value` — the order of finite doubles
-/
import SolidTree.Proofs.Double.Nearest

namespace SolidTree.Binary64

open Float.Model (UnpackedFloat)
open Float.Model.UnpackedFloat (Sign)

/-! ## §1. Signs. -/

theorem signFactor_neg (s : Sign) : signFactor (-s) = -signFactor s := by
  cases s with
  | positive => rfl
  | negative => exact (neg_neg (1 : ℚ)).symm

theorem unpack_neg {x : Float} (hx : isFinite x = true) :
    (-x).toModel.unpack = x.toModel.unpack.neg := by
  show (Float.Model.pack x.toModel.unpack.neg).unpack = _
  rcases unpack_of_isFinite hx with ⟨s, hzero⟩ | ⟨s, m, e, hpos, hunpack⟩
  · rw [hzero]
    exact unpack_pack_zero (-s)
  · rw [hunpack]
    exact unpack_pack (isCanonical_of_unpack hunpack) (-s)

theorem value_neg {x : Float} (hx : isFinite x = true) :
    isFinite (-x) = true ∧ value (-x) = -value x := by
  have hneg := unpack_neg hx
  rcases unpack_of_isFinite hx with ⟨s, hzero⟩ | ⟨s, m, e, hpos, hunpack⟩
  · rw [hzero] at hneg
    refine ⟨isFinite_of_zero hneg, ?_⟩
    rw [value_of_zero hneg, value_of_zero hzero, neg_zero]
  · rw [hunpack] at hneg
    refine ⟨isFinite_of_unpack hneg, ?_⟩
    rw [value_of_unpack hneg, value_of_unpack hunpack, signFactor_neg, neg_mul]

theorem value_abs {x : Float} (hx : isFinite x = true) :
    isFinite x.abs = true ∧ value x.abs = |value x| := by
  rcases unpack_of_isFinite hx with ⟨s, hzero⟩ | ⟨s, m, e, hpos, hunpack⟩
  · have habs : x.abs.toModel.unpack = .zero .positive := by
      show (Float.Model.pack x.toModel.unpack.abs).unpack = _
      rw [hzero]
      exact unpack_pack_zero .positive
    refine ⟨isFinite_of_zero habs, ?_⟩
    rw [value_of_zero habs, value_of_zero hzero, abs_zero]
  · have habs : x.abs.toModel.unpack = .finite .positive m e hpos := by
      show (Float.Model.pack x.toModel.unpack.abs).unpack = _
      rw [hunpack]
      exact unpack_pack (isCanonical_of_unpack hunpack) .positive
    refine ⟨isFinite_of_unpack habs, ?_⟩
    rw [value_of_positive habs, abs_value_of_unpack hunpack]

/-! ## §2. Sums. -/

section Finite

variable {x y : Float}

/-- A whole number with a sign is packed like its magnitude. -/
theorem normalize_eq (k E : ℤ) :
    ∃ s q, signFactor s * (q : ℕ) = (k : ℚ) ∧
      UnpackedFloat.normalize .binary64 k E .positive = .round .binary64 s q E := by
  unfold UnpackedFloat.normalize
  rcases lt_trichotomy k 0 with hneg | rfl | hpos
  · refine ⟨.negative, (-k).toNat, ?_, by rw [Int.compare_eq_lt.mpr hneg]⟩
    have hcast : (((-k).toNat : ℕ) : ℤ) = -k := Int.toNat_of_nonneg (by omega)
    have hcast' : (((-k).toNat : ℕ) : ℚ) = -k := by exact_mod_cast hcast
    rw [signFactor_negative, hcast']
    ring
  · exact ⟨.positive, 0, by simp, (round_zero .positive E).symm⟩
  · refine ⟨.positive, k.toNat, ?_, by rw [Int.compare_eq_gt.mpr hpos]⟩
    have hcast : ((k.toNat : ℕ) : ℤ) = k := Int.toNat_of_nonneg hpos.le
    have hcast' : ((k.toNat : ℕ) : ℚ) = k := by exact_mod_cast hcast
    rw [signFactor_positive, hcast', one_mul]

/-- A mantissa that is shifted to a smaller exponent stands for the same. -/
theorem shiftLeft_scaled (m : ℕ) {E e : ℤ} (h : E ≤ e) :
    ((m <<< (e - E).toNat : ℕ) : ℚ) * 2 ^ E = m * 2 ^ e := by
  obtain ⟨n, rfl⟩ := Int.le.dest h
  rw [add_sub_cancel_left, Int.toNat_natCast, Nat.shiftLeft_eq, zpow_add₀ two_ne_zero,
    zpow_natCast]
  push_cast
  ring

/-- The sum of two doubles that are no zeros is a whole number, scaled by the smaller of the
two exponents. -/
theorem add_eq_ofScaled {s t : Sign} {m n : ℕ} {e f : ℤ} {hm : 0 < m} {hn : 0 < n}
    (hx : x.toModel.unpack = .finite s m e hm) (hy : y.toModel.unpack = .finite t n f hn) :
    ∃ r q, x + y = ofScaled r q (min e f) ∧
      signFactor r * (q * 2 ^ min e f) = value x + value y := by
  obtain ⟨r, q, hvalue, hnormal⟩ := normalize_eq
    (s.apply ((m <<< (e - min e f).toNat : ℕ) : ℤ) + t.apply ((n <<< (f - min e f).toNat : ℕ) : ℤ))
    (min e f)
  refine ⟨r, q, ?_, ?_⟩
  · show Float.ofModel (Float.Model.pack
      (UnpackedFloat.add .binary64 x.toModel.unpack y.toModel.unpack)) = _
    rw [hx, hy]
    exact congrArg (fun u => Float.ofModel (Float.Model.pack u)) hnormal
  · have hleft := shiftLeft_scaled m (min_le_left e f)
    have hright := shiftLeft_scaled n (min_le_right e f)
    rw [Int.cast_add, cast_apply, cast_apply] at hvalue
    rw [value_of_unpack hx, value_of_unpack hy, ← hleft, ← hright, ← mul_assoc, hvalue]
    ring

theorem eq_of_unpack_eq (h : x.toModel.unpack = y.toModel.unpack) : x = y := by
  have hmodel : x.toModel = y.toModel := by
    rw [← pack_unpack x.toModel, h, pack_unpack]
  exact congrArg Float.ofModel hmodel

/-- **A sum is within half a unit of the exact one.** -/
theorem add_near (hx : isFinite x = true) (hy : isFinite y = true)
    (hless : |value x + value y| < overflow) :
    isFinite (x + y) = true ∧ |value (x + y) - (value x + value y)| ≤ halfUnit (x + y) := by
  -- A zero changes nothing but the sign of another zero.
  have hadd : (x + y).toModel.unpack
      = (Float.Model.pack (UnpackedFloat.add .binary64 x.toModel.unpack y.toModel.unpack)).unpack :=
    rfl
  rcases unpack_of_isFinite hx with ⟨s, hzero⟩ | ⟨s, m, e, hpos, hunpack⟩
  · rcases unpack_of_isFinite hy with ⟨t, hzero'⟩ | ⟨t, n, f, hpos', hunpack'⟩
    · have hsum : ∃ r, (x + y).toModel.unpack = .zero r := by
        rw [hadd, hzero, hzero']
        cases s <;> cases t <;> exact ⟨_, unpack_pack_zero _⟩
      obtain ⟨r, hsum⟩ := hsum
      refine ⟨isFinite_of_zero hsum, ?_⟩
      rw [value_of_zero hsum, value_of_zero hzero, value_of_zero hzero', add_zero, sub_zero,
        abs_zero]
      exact halfUnit_nonneg _
    · have hsum : x + y = y := by
        refine eq_of_unpack_eq ?_
        rw [hadd, hzero, hunpack']
        exact unpack_pack (isCanonical_of_unpack hunpack') t
      rw [hsum, value_of_zero hzero, zero_add, sub_self, abs_zero]
      exact ⟨hy, halfUnit_nonneg _⟩
  · rcases unpack_of_isFinite hy with ⟨t, hzero'⟩ | ⟨t, n, f, hpos', hunpack'⟩
    · have hsum : x + y = x := by
        refine eq_of_unpack_eq ?_
        rw [hadd, hunpack, hzero']
        exact unpack_pack (isCanonical_of_unpack hunpack) s
      rw [hsum, value_of_zero hzero', add_zero, sub_self, abs_zero]
      exact ⟨hx, halfUnit_nonneg _⟩
    · obtain ⟨r, q, hsum, hvalue⟩ := add_eq_ofScaled hunpack hunpack'
      have hleast : -1074 ≤ min e f :=
        le_min (isCanonical_of_unpack hunpack).least (isCanonical_of_unpack hunpack').least
      rw [← hvalue, abs_mul, abs_signFactor, one_mul,
        abs_of_nonneg (mul_nonneg q.cast_nonneg (zpow_pos two_pos _).le)] at hless
      rw [hsum, ← hvalue]
      exact ofScaled_near hleast hless r

/-- A difference is the sum with the negated double. -/
theorem sub_eq_add (hy : isFinite y = true) : x - y = x + -y := by
  show Float.ofModel (Float.Model.pack
      (UnpackedFloat.sub .binary64 x.toModel.unpack y.toModel.unpack))
    = Float.ofModel (Float.Model.pack
      (UnpackedFloat.add .binary64 x.toModel.unpack (-y).toModel.unpack))
  rw [unpack_neg hy]
  congr 2
  rcases unpack_of_isFinite hy with ⟨t, hzero⟩ | ⟨t, n, f, hpos, hunpack⟩
  · rw [hzero]
    cases x.toModel.unpack <;> rfl
  · rw [hunpack]
    cases x.toModel.unpack with
    | finite s m e hm =>
      have happly (k : ℤ) : (-t).apply k = -t.apply k := by
        cases t with
        | positive => rfl
        | negative => exact (neg_neg k).symm
      simp only [UnpackedFloat.sub, UnpackedFloat.add, UnpackedFloat.neg, happly, sub_eq_add_neg]
    | _ => rfl

/-- **A difference is within half a unit of the exact one.** -/
theorem sub_near (hx : isFinite x = true) (hy : isFinite y = true)
    (hless : |value x - value y| < overflow) :
    isFinite (x - y) = true ∧ |value (x - y) - (value x - value y)| ≤ halfUnit (x - y) := by
  obtain ⟨hneg, hvalue⟩ := value_neg hy
  have hsum : value x - value y = value x + value (-y) := by rw [hvalue, sub_eq_add_neg]
  rw [hsum] at hless ⊢
  rw [sub_eq_add hy]
  exact add_near hx hneg hless

/-! ## §3. Remainders. -/

theorem isFactor_of_one_le (hy : isFinite y = true) (hone : 1 ≤ value y) : IsFactor y := by
  rcases unpack_of_isFinite hy with ⟨s, hzero⟩ | ⟨s, n, f, hn, hunpack⟩
  · rw [value_of_zero hzero] at hone
    norm_num at hone
  · have hpos := magnitude_pos hn f
    cases s with
    | positive => exact ⟨n, f, hn, hunpack, by rwa [← value_of_positive hunpack]⟩
    | negative =>
      rw [value_of_unpack hunpack, signFactor_negative] at hone
      linarith

/-- What is left of one mantissa by another, both at the smaller exponent, has no more digits
than they: the one with that exponent is not shifted. -/
theorem aligned_mod_lt {m n : ℕ} (hm : m < 2 ^ 53) (hn : 0 < n) (hlt : n < 2 ^ 53) (e f : ℤ) :
    (m <<< (e - min e f).toNat) % (n <<< (f - min e f).toNat) < 2 ^ 53 := by
  rcases le_total e f with h | h
  · rw [min_eq_left h, sub_self, Int.toNat_zero, Nat.shiftLeft_zero]
    exact (Nat.mod_le _ _).trans_lt hm
  · rw [min_eq_right h, sub_self, Int.toNat_zero, Nat.shiftLeft_zero]
    exact (Nat.mod_lt _ hn).trans hlt

/-- **A remainder is exact**: it is less than the divisor, and differs from the dividend by the
divisor, taken a whole number of times. -/
theorem remainder_spec (hx : isFinite x = true) (hy : IsFactor y) :
    isFinite (remainder x y) = true ∧ |value (remainder x y)| < value y ∧
      ∃ k : ℤ, value x = k * value y + value (remainder x y) := by
  have hone := hy.one_le
  obtain ⟨n, f, hn, hunpack', -⟩ := hy
  rcases unpack_of_isFinite hx with ⟨s, hzero⟩ | ⟨s, m, e, hm, hunpack⟩
  · have hrest : remainder x y = x := by
      unfold remainder
      rw [hzero, hunpack']
    rw [hrest, value_of_zero hzero, abs_zero]
    exact ⟨hx, by linarith, 0, by rw [Int.cast_zero, zero_mul, zero_add]⟩
  · have hcanonical := isCanonical_of_unpack hunpack
    have hcanonical' := isCanonical_of_unpack hunpack'
    have hrest : remainder x y = ofScaled s
        ((m <<< (e - min e f).toNat) % (n <<< (f - min e f).toNat)) (min e f) := by
      unfold remainder
      rw [hunpack, hunpack']
    obtain ⟨hfinite, hvalue⟩ := ofScaled_exact
      (aligned_mod_lt hcanonical.lt hn hcanonical'.lt e f)
      (le_min hcanonical.least hcanonical'.least) ((min_le_left e f).trans hcanonical.greatest) s
    have hleft := shiftLeft_scaled m (min_le_left e f)
    have hright := shiftLeft_scaled n (min_le_right e f)
    have hpos : 0 < n <<< (f - min e f).toNat := by
      rw [Nat.shiftLeft_eq]
      positivity
    rw [hrest, value_of_positive hunpack', value_of_unpack hunpack, hvalue, ← hleft, ← hright]
    generalize m <<< (e - min e f).toNat = M, n <<< (f - min e f).toNat = N at hpos hfinite ⊢
    have hunit : (0 : ℚ) < 2 ^ min e f := zpow_pos two_pos _
    have hsplit : (M : ℚ) = N * (M / N : ℕ) + (M % N : ℕ) := by
      exact_mod_cast (Nat.div_add_mod M N).symm
    refine ⟨hfinite, ?_, s.apply (M / N : ℕ), ?_⟩
    · rw [abs_mul, abs_signFactor, one_mul,
        abs_of_nonneg (mul_nonneg (Nat.cast_nonneg _) hunit.le)]
      exact mul_lt_mul_of_pos_right (Nat.cast_lt.mpr (Nat.mod_lt M hpos)) hunit
    · rw [cast_apply, hsplit]
      ring

/-- A dividend that is not finite leaves no number. -/
theorem remainder_of_not_isFinite (hx : isFinite x = false) (y : Float) :
    remainder x y = notANumber := by
  unfold isFinite at hx
  unfold remainder
  cases hunpack : x.toModel.unpack with
  | notANumber => rfl
  | infinity s => cases y.toModel.unpack <;> rfl
  | zero s => simp [hunpack] at hx
  | finite s m e hm => simp [hunpack] at hx

/-! ## §4. The size of half a unit. -/

theorem halfUnit_le (x : Float) : halfUnit x ≤ precision * |value x| + 2 ^ (-1075 : ℤ) := by
  have hleast : (0 : ℚ) < 2 ^ (-1075 : ℤ) := zpow_pos two_pos _
  have hrelative : 0 ≤ precision * |value x| := mul_nonneg (by unfold precision; positivity)
    (abs_nonneg _)
  cases hunpack : x.toModel.unpack with
  | finite s m e hm =>
    rw [abs_value_of_unpack hunpack] at hrelative ⊢
    simp only [halfUnit, hunpack]
    rcases (isCanonical_of_unpack hunpack).full with hfull | rfl
    · have hfull' : (2 : ℚ) ^ 52 ≤ m := by exact_mod_cast hfull
      have hunit : (0 : ℚ) < 2 ^ e := zpow_pos two_pos e
      have hdigits : (1 : ℚ) / 2 ≤ precision * m := by
        unfold precision
        linarith
      calc (2 : ℚ) ^ (e - 1) = 1 / 2 * 2 ^ e := by rw [zpow_sub_one₀ two_ne_zero]; ring
        _ ≤ precision * m * 2 ^ e := mul_le_mul_of_nonneg_right hdigits hunit.le
        _ ≤ precision * (m * 2 ^ e) + 2 ^ (-1075 : ℤ) := by linarith
    · exact le_add_of_nonneg_left hrelative
  | _ =>
    simp only [halfUnit, hunpack]
    exact le_add_of_nonneg_left hrelative

/-- Half a unit, told by the size of the exact result. -/
theorem abs_sub_le_of_halfUnit {r : ℚ} (h : |value x - r| ≤ halfUnit x) :
    |value x - r| ≤ 2 * precision * (|r| + 1) := by
  have hsize : |value x| ≤ |r| + |value x - r| := by
    have := abs_add_le r (value x - r)
    rwa [add_sub_cancel] at this
  have hleast : (2 : ℚ) ^ (-1075 : ℤ) ≤ precision := by
    calc (2 : ℚ) ^ (-1075 : ℤ) ≤ 2 ^ (-53 : ℤ) := zpow_le_zpow_right₀ one_le_two (by norm_num)
      _ = precision := by unfold precision; norm_num
  have hhalf := h.trans (halfUnit_le x)
  have hdistance := abs_nonneg (value x - r)
  unfold precision at *
  linarith

/-! ## §5. Order. -/

theorem extended_eq (hx : isFinite x = true) : extended x = ((value x : ℝ) : EReal) := by
  unfold extended value
  rcases unpack_of_isFinite hx with ⟨s, hzero⟩ | ⟨s, m, e, hpos, hunpack⟩
  · rw [hzero]
    rfl
  · rw [hunpack]
    rfl

theorem isNumber_of_isFinite (hx : isFinite x = true) : Scalar.isNumber x = true := by
  rw [isNumber_iff]
  intro hunpack
  simp [isFinite, hunpack] at hx

/-- Finite doubles are ordered like their values. -/
theorem lt_iff_value (hx : isFinite x = true) (hy : isFinite y = true) :
    x < y ↔ value x < value y := by
  rw [lt_iff (isNumber_of_isFinite hx) (isNumber_of_isFinite hy), extended_eq hx, extended_eq hy,
    EReal.coe_lt_coe_iff, Rat.cast_lt]

theorem le_iff_value (hx : isFinite x = true) (hy : isFinite y = true) :
    x ≤ y ↔ value x ≤ value y := by
  rw [le_iff (isNumber_of_isFinite hx) (isNumber_of_isFinite hy), extended_eq hx, extended_eq hy,
    EReal.coe_le_coe_iff, Rat.cast_le]

end Finite

end SolidTree.Binary64
