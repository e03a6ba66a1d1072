/-
  SolidTree.Proofs.Double.Places
  ──────────────────────────────
  **ROUNDING TO DECIMAL PLACES.**

  A number is scaled by a power of ten, rounded to a whole number and scaled
  back.  The power is multiplied up from the squares `10, 10², 10⁴, …`; the
  scaled number and the result are rounded to doubles as well, so that there
  are three places where something may be lost:

      power of ten   — exact up to `10 ^ 22`, one part in `2 ^ 53` for each
                       decimal place at worst
      scaled number  — half a unit of its last binary digit
      result         — half a unit of its last binary digit

  Main results:
    * `tenToThe_approximates` — the powers of ten
    * `places_near` — a rounded number has no negative zero, and stays near
      if it does not leave the doubles while it is scaled
-/
import SolidTree.Number.Approximate
import SolidTree.Proofs.Double.Nearest

namespace SolidTree.Binary64

open Float.Model (UnpackedFloat)
open Float.Model.UnpackedFloat (Sign)

/-! ## §1. Products of several roundings. -/

/-- A double of one or more that is `a` up to `k` roundings. -/
structure Approximates (x : Float) (a : ℚ) (k : ℕ) : Prop where
  factor : IsFactor x
  low : a * (1 - precision) ^ k ≤ value x
  high : value x ≤ a * (1 + precision) ^ k

theorem precision_pos : 0 < precision := by
  unfold precision
  positivity

theorem one_sub_precision_pos : 0 < 1 - precision := by
  unfold precision
  norm_num

theorem Approximates.mul {x y : Float} {a b : ℚ} {j k : ℕ} (hx : Approximates x a j)
    (hy : Approximates y b k) (ha : 0 ≤ a) (hb : 0 ≤ b)
    (hless : a * b * (1 + precision) ^ (j + k) < overflow) :
    Approximates (x * y) (a * b) (j + k + 1) := by
  have hx1 := hx.factor.one_le
  have hy1 := hy.factor.one_le
  have hone : 1 ≤ value x * value y := one_le_mul_of_one_le_of_one_le hx1 hy1
  have hlow : a * b * (1 - precision) ^ (j + k) ≤ value x * value y := by
    have hfactor := one_sub_precision_pos.le
    calc a * b * (1 - precision) ^ (j + k)
        = a * (1 - precision) ^ j * (b * (1 - precision) ^ k) := by ring
      _ ≤ value x * value y := mul_le_mul hx.low hy.low (by positivity) (by linarith)
  have hhigh : value x * value y ≤ a * b * (1 + precision) ^ (j + k) := by
    have hfactor := precision_pos.le
    calc value x * value y ≤ a * (1 + precision) ^ j * (b * (1 + precision) ^ k) :=
          mul_le_mul hx.high hy.high (by linarith) (by positivity)
      _ = a * b * (1 + precision) ^ (j + k) := by ring
  obtain ⟨m, e, hpos, hunpack, -⟩ := hx.factor
  have hvalue := value_of_positive hunpack
  obtain ⟨n, f, hn, hproduct, hround⟩ :=
    mul_spec hunpack hy.factor (hvalue ▸ hhigh.trans_lt hless)
  rw [← hvalue] at hround
  obtain ⟨hbelow, habove⟩ := hround.relative hn hone
  rw [← value_of_positive hproduct] at hbelow habove
  refine ⟨⟨n, f, hn.pos, hproduct, hround.one_le hn hone⟩, ?_, ?_⟩
  · calc a * b * (1 - precision) ^ (j + k + 1)
        = a * b * (1 - precision) ^ (j + k) * (1 - precision) := by ring
      _ ≤ value x * value y * (1 - precision) :=
        mul_le_mul_of_nonneg_right hlow one_sub_precision_pos.le
      _ ≤ value (x * y) := hbelow
  · calc value (x * y) ≤ value x * value y * (1 + precision) := habove
      _ ≤ a * b * (1 + precision) ^ (j + k) * (1 + precision) :=
        mul_le_mul_of_nonneg_right hhigh (by linarith [precision_pos])
      _ = a * b * (1 + precision) ^ (j + k + 1) := by ring

/-! ## §2. Powers of ten. -/

/-- A power of ten that is exact takes no rounding. -/
theorem approximates_of_isPowerOfTen {x : Float} {n : ℕ} (h : isPowerOfTen x n = true) :
    Approximates x (10 ^ n) 0 := by
  obtain ⟨m, e, hpos, hunpack, hvalue⟩ := unpack_of_isPowerOfTen h
  have hten : value x = 10 ^ n := (value_of_positive hunpack).trans hvalue
  refine ⟨⟨m, e, hpos, hunpack, ?_⟩, ?_, ?_⟩
  · rw [hvalue]
    exact one_le_pow₀ (by norm_num)
  · rw [hten, pow_zero, mul_one]
  · rw [hten, pow_zero, mul_one]

/-- Powers of ten up to the greatest one below the overflow can be multiplied, with as many
roundings as there are decimal places. -/
theorem power_lt_overflow {i j k : ℕ} (hk : k ≤ i + j) (hsum : i + j ≤ 308) :
    (10 : ℚ) ^ i * 10 ^ j * (1 + precision) ^ k < overflow := by
  have hone : 1 ≤ 1 + precision := by linarith [precision_pos]
  calc (10 : ℚ) ^ i * 10 ^ j * (1 + precision) ^ k = 10 ^ (i + j) * (1 + precision) ^ k := by
        rw [pow_add]
    _ ≤ 10 ^ 308 * (1 + precision) ^ 308 :=
      mul_le_mul (pow_le_pow_right₀ (by norm_num) hsum)
        (pow_le_pow_right₀ hone (hk.trans hsum)) (by positivity) (by positivity)
    _ < overflow := by decide +kernel

theorem Approximates.mul_power {x y : Float} {i j k l : ℕ} (hx : Approximates x (10 ^ i) k)
    (hy : Approximates y (10 ^ j) l) (hkl : k + l ≤ i + j) (hsum : i + j ≤ 308) :
    Approximates (x * y) (10 ^ (i + j)) (k + l + 1) := by
  rw [pow_add]
  exact hx.mul hy (by positivity) (by positivity) (power_lt_overflow hkl hsum)

/-- What has been multiplied up after the first `b` binary digits of the exponent, and the next
square. -/
def powers (n b : ℕ) : Float × Float :=
  (List.range b).foldl
    (fun state bit => (if n.testBit bit then state.1 * state.2 else state.1, state.2 * state.2))
    (1.0, 10.0)

theorem tenToThe_eq (n : ℕ) : tenToThe n = (powers n 32).1 := rfl

theorem powers_succ (n b : ℕ) :
    powers n (b + 1) = (if n.testBit b then (powers n b).1 * (powers n b).2 else (powers n b).1,
      (powers n b).2 * (powers n b).2) := by
  rw [powers, List.range_succ, List.foldl_append]
  rfl

/-- The squares up to `10 ^ 256` have one rounding less than decimal places. -/
theorem square_approximates (n : ℕ) {b : ℕ} (hb : b ≤ 8) :
    Approximates (powers n b).2 (10 ^ 2 ^ b) (2 ^ b - 1) := by
  induction b with
  | zero =>
    have hten : isPowerOfTen 10.0 1 = true := rfl
    exact approximates_of_isPowerOfTen hten
  | succ b ih =>
    have hpow : 2 ^ b ≤ 2 ^ 7 := Nat.pow_le_pow_right two_pos (by omega)
    have hone : 1 ≤ 2 ^ b := Nat.one_le_two_pow
    have hsquare := (ih (by omega)).mul_power (ih (by omega)) (by omega) (by omega)
    rw [powers_succ]
    convert hsquare using 1
    · rw [pow_succ, mul_two]
    · rw [pow_succ]
      omega

/-- The product for the lower binary digits of the exponent has as many roundings as decimal
places. -/
theorem product_approximates {n : ℕ} (hn : n ≤ 308) (b : ℕ) :
    Approximates (powers n b).1 (10 ^ (n % 2 ^ b)) (n % 2 ^ b) := by
  induction b with
  | zero =>
    have hone : isPowerOfTen 1.0 0 = true := rfl
    rw [pow_zero, Nat.mod_one]
    exact approximates_of_isPowerOfTen hone
  | succ b ih =>
    have hmod : n % 2 ^ (b + 1) = n % 2 ^ b + 2 ^ b * (n / 2 ^ b % 2) := Nat.mod_pow_succ
    have hle : n % 2 ^ (b + 1) ≤ n := Nat.mod_le _ _
    rw [powers_succ, Nat.testBit_eq_decide_div_mod_eq]
    rcases Nat.mod_two_eq_zero_or_one (n / 2 ^ b) with hbit | hbit
    · rw [hbit, mul_zero, add_zero] at hmod
      rw [hbit, hmod]
      exact ih
    · -- Only squares that are no greater than the power itself are multiplied.
      rw [hbit, mul_one] at hmod
      have hb : b ≤ 8 := by
        by_contra hb
        have hpow : 2 ^ 9 ≤ 2 ^ b := Nat.pow_le_pow_right two_pos (by omega)
        omega
      have hone : 1 ≤ 2 ^ b := Nat.one_le_two_pow
      have hproduct := ih.mul_power (square_approximates n hb) (by omega) (by omega)
      have hcount : n % 2 ^ b + (2 ^ b - 1) + 1 = n % 2 ^ b + 2 ^ b := by omega
      rw [hcount, ← hmod] at hproduct
      rw [hbit]
      exact hproduct

/-- **Powers of ten are exact up to one rounding for each decimal place.** -/
theorem tenToThe_approximates {n : ℕ} (hn : n ≤ 308) : Approximates (tenToThe n) (10 ^ n) n := by
  have hproduct := product_approximates hn 32
  rwa [Nat.mod_eq_of_lt (by omega), ← tenToThe_eq] at hproduct

theorem tenToThe_table : ∀ i : Fin 23, isPowerOfTen (tenToThe i) i = true := by
  decide +kernel

/-- Powers of ten that are doubles are exact. -/
theorem value_tenToThe {n : ℕ} (hn : n ≤ 22) : value (tenToThe n) = 10 ^ n := by
  obtain ⟨m, e, hpos, hunpack, hvalue⟩ :=
    unpack_of_isPowerOfTen (tenToThe_table ⟨n, Nat.lt_succ_of_le hn⟩)
  exact (value_of_positive hunpack).trans hvalue

theorem placesFactor_eq {n : UInt32} (hn : n.toNat ≤ 308) : placesFactor n = tenToThe n.toNat := by
  have hint : n.toInt32.toInt = n.toNat := BitVec.toInt_eq_toNat_of_lt (by
    show 2 * n.toNat < _
    omega)
  unfold placesFactor
  rw [hint]
  exact if_neg (by omega)

theorem approximates_placesFactor {n : UInt32} (hn : n.toNat ≤ 308) :
    Approximates (placesFactor n) (10 ^ n.toNat) n.toNat := by
  rw [placesFactor_eq hn]
  exact tenToThe_approximates hn

/-! ## §3. Decimal places. -/

/-- **A number that is scaled, rounded and scaled back stays near.** -/
theorem scaled_near {x factor : Float} (hx : isFinite x = true) (hfactor : IsFactor factor)
    (hless : |value x| * value factor < overflow) :
    isFinite (round (x * factor) / factor) = true ∧
      |value (round (x * factor) / factor) - value x|
        ≤ (1 / 2 + halfUnit (x * factor)) / value factor
          + halfUnit (round (x * factor) / factor) := by
  obtain ⟨hscaled, hproduct⟩ := mul_near hx hfactor hless
  obtain ⟨hrounded, hwhole, hsize⟩ := round_near hscaled
  obtain ⟨hback, hquotient⟩ := div_near hrounded hfactor hsize
  have hpos : 0 < value factor := by linarith [hfactor.one_le]
  refine ⟨hback, ?_⟩
  -- What the quotient loses, and what was lost before it, counted in the last place.
  have hsplit : value (round (x * factor) / factor) - value x
      = (value (round (x * factor) / factor) - value (round (x * factor)) / value factor)
        + ((value (round (x * factor)) - value (x * factor))
          + (value (x * factor) - value x * value factor)) / value factor := by
    field_simp
    ring
  have hlost : |(value (round (x * factor)) - value (x * factor))
      + (value (x * factor) - value x * value factor)| ≤ 1 / 2 + halfUnit (x * factor) :=
    (abs_add_le _ _).trans (add_le_add hwhole hproduct)
  calc |value (round (x * factor) / factor) - value x|
      ≤ |value (round (x * factor) / factor) - value (round (x * factor)) / value factor|
        + |((value (round (x * factor)) - value (x * factor))
          + (value (x * factor) - value x * value factor)) / value factor| := by
        rw [hsplit]
        exact abs_add_le _ _
    _ ≤ halfUnit (round (x * factor) / factor)
        + (1 / 2 + halfUnit (x * factor)) / value factor := by
        rw [abs_div, abs_of_pos hpos]
        exact add_le_add hquotient (div_le_div_of_nonneg_right hlost hpos.le)
    _ = _ := add_comm _ _

/-- A zero without its sign is the same number. -/
theorem unsigned_zero {x : Float} (hx : isFinite x = true) :
    isFinite (if x == 0.0 then 0.0 else x) = true ∧
      value (if x == 0.0 then 0.0 else x) = value x ∧
      halfUnit (if x == 0.0 then 0.0 else x) = halfUnit x := by
  rcases unpack_of_isFinite hx with ⟨s, hzero⟩ | ⟨s, m, e, hpos, hunpack⟩
  · have hsigned : (x == 0.0) = true := by
      show UnpackedFloat.beq x.toModel.unpack (.zero .positive) = true
      rw [hzero]
      rfl
    have hunsigned : (0.0 : Float).toModel.unpack = .zero .positive := rfl
    rw [if_pos hsigned, value_of_zero hzero, value_of_zero hunsigned, halfUnit, halfUnit, hzero,
      hunsigned]
    exact ⟨isFinite_of_zero hunsigned, rfl, rfl⟩
  · have hsigned : (x == 0.0) = false := by
      show UnpackedFloat.beq x.toModel.unpack (.zero .positive) = false
      rw [hunpack]
      cases s <;> rfl
    rw [hsigned]
    exact ⟨hx, rfl, rfl⟩

/-- A rounded number is no negative zero. -/
theorem places_ne (n : UInt32) (x : Float) : places n x ≠ -0.0 := by
  unfold places
  intro h
  by_cases hzero : (round (x * placesFactor n) / placesFactor n == 0.0) = true
  · rw [if_pos hzero] at h
    exact absurd h (by decide)
  · rw [if_neg hzero] at h
    rw [h] at hzero
    exact hzero rfl

/-- **Rounding to decimal places.** The result is no negative zero. For up to 308 places, and a
finite number that is below the overflow after it is scaled, it is finite, and differs from the
number by no more than half of the last place, half a unit in the scaled number, counted in the
last place, and half a unit in the result. The factor is ten to the number of places: exactly
for up to 22 of them, else up to one rounding for each. -/
theorem places_near (n : UInt32) (x : Float) :
    places n x ≠ -0.0 ∧
      (n.toNat ≤ 308 → isFinite x = true → |value x| * value (placesFactor n) < overflow →
        isFinite (places n x) = true ∧
          |value (places n x) - value x|
            ≤ (1 / 2 + halfUnit (x * placesFactor n)) / value (placesFactor n)
              + halfUnit (places n x) ∧
          10 ^ n.toNat * (1 - precision) ^ n.toNat ≤ value (placesFactor n) ∧
          value (placesFactor n) ≤ 10 ^ n.toNat * (1 + precision) ^ n.toNat ∧
          (n.toNat ≤ 22 → value (placesFactor n) = 10 ^ n.toNat)) := by
  refine ⟨places_ne n x, fun hn hx hless => ?_⟩
  have hfactor := approximates_placesFactor hn
  obtain ⟨hfinite, hnear⟩ := scaled_near hx hfactor.factor hless
  obtain ⟨hfinite', hvalue, hunit⟩ := unsigned_zero hfinite
  refine ⟨hfinite', ?_, hfactor.low, hfactor.high, fun hexact => ?_⟩
  · show |value (ite _ _ _) - value x| ≤ _ + halfUnit (ite _ _ _)
    rwa [hvalue, hunit]
  · rw [placesFactor_eq hn]
    exact value_tenToThe hexact

/-- A length with five decimals, of which four are kept. -/
theorem places_near_length :
    isFinite 3.02865 = true ∧ |value 3.02865| * value (placesFactor 4) < overflow ∧
      isFinite (places 4 3.02865) = true ∧
      |value (places 4 3.02865) - value 3.02865|
        ≤ (1 / 2 + halfUnit (3.02865 * placesFactor 4)) / 10 ^ 4 + halfUnit (places 4 3.02865) := by
  have hfinite : isFinite 3.02865 = true := by decide +kernel
  have hless : |value 3.02865| * value (placesFactor 4) < overflow := by decide +kernel
  obtain ⟨hplaces, hnear, -, -, hexact⟩ := (places_near 4 3.02865).2 (by decide) hfinite hless
  rw [hexact (by decide)] at hnear
  exact ⟨hfinite, hless, hplaces, hnear⟩

/-- **What is lost in the scaled number can be seen.** A length with eight digits after the
point, of which seven are kept, is off by more than half of the last place and a whole unit of
the last binary digit: the scaled number has one binary digit after the point, so it is rounded
to a half first, and then away from zero. -/
theorem places_far :
    isFinite 258490507.59998173 = true ∧
      1 / 2 / 10 ^ 7 + 2 * halfUnit (places 7 258490507.59998173)
        < |value (places 7 258490507.59998173) - value 258490507.59998173| := by
  decide +kernel

end SolidTree.Binary64
