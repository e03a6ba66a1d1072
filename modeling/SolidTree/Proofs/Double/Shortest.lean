/-
  SolidTree.Proofs.Double.Shortest
  ────────────────────────────────
  **THE SHORTEST DECIMAL READS BACK.**

  The decimal that a double is written with lies in the double's rounding
  interval.  A grid whose step is less than the interval is wide has a point
  in it, and that is so for seventeen digits at the latest:

      contains_iff    — what is tested is that the decimal rounds to the double
      atGrid_isSome   — a fine grid has such a decimal
      shortest_spec   — so the search ends with one
-/
import SolidTree.Number.Shortest
import SolidTree.Proofs.Double.Rounding

namespace SolidTree.RoundingInterval

open Binary64

variable {m : ℕ} {e : ℤ}

/-! ## §1. The interval. -/

theorem power_spec (k : ℤ) :
    (10 : ℚ) ^ k * (Decimal.power k).2 = (Decimal.power k).1 ∧ (0 : ℚ) < (Decimal.power k).2 := by
  have hvalue : (10 : ℚ) ^ k * 10 ^ (-k).toNat = 10 ^ k.toNat := by
    rw [← zpow_natCast, ← zpow_natCast, ← zpow_add₀ (by norm_num)]
    congr 1
    omega
  constructor
  · show (10 : ℚ) ^ k * ((10 ^ (-k).toNat : ℕ) : ℚ) = ((10 ^ k.toNat : ℕ) : ℚ)
    exact_mod_cast hvalue
  · show (0 : ℚ) < ((10 ^ (-k).toNat : ℕ) : ℚ)
    positivity

/-- A quarter of the last digit of a double, as a numerator over the denominator. -/
theorem scale_spec (m : ℕ) (e : ℤ) :
    ((Nat.pow 2 (e - 2).toNat : ℕ) : ℚ) = 2 ^ e / 4 * (ofDouble m e).denominator ∧
      (0 : ℚ) < (ofDouble m e).denominator := by
  have hvalue : (2 : ℚ) ^ (e - 2) * 2 ^ (2 - e).toNat = 2 ^ (e - 2).toNat := by
    rw [← zpow_natCast, ← zpow_natCast, ← zpow_add₀ two_ne_zero]
    congr 1
    omega
  have hquarter : (2 : ℚ) ^ e / 4 = 2 ^ (e - 2) := by
    rw [zpow_sub₀ two_ne_zero]
    norm_num
  constructor
  · rw [hquarter]
    show ((2 ^ (e - 2).toNat : ℕ) : ℚ) = 2 ^ (e - 2) * ((2 ^ (2 - e).toNat : ℕ) : ℚ)
    exact_mod_cast hvalue.symm
  · show (0 : ℚ) < ((2 ^ (2 - e).toNat : ℕ) : ℚ)
    positivity

/-- Where a decimal lies, in units of the interval. -/
theorem point_spec (m : ℕ) (e : ℤ) (k : ℤ) :
    ∃ u : ℚ, 0 < u ∧
      (∀ c : ℕ, ((c * (Decimal.power k).1 * (ofDouble m e).denominator : ℕ) : ℚ) = c * 10 ^ k * u) ∧
      ∀ n : ℕ, ((n * Nat.pow 2 (e - 2).toNat * (Decimal.power k).2 : ℕ) : ℚ) = n / 4 * 2 ^ e * u := by
  obtain ⟨hpower, hpos⟩ := power_spec k
  obtain ⟨hscale, hpos'⟩ := scale_spec m e
  refine ⟨(Decimal.power k).2 * (ofDouble m e).denominator, mul_pos hpos hpos', fun c => ?_,
    fun n => ?_⟩
  · push_cast
    rw [← hpower]
    ring
  · rw [Nat.cast_mul, Nat.cast_mul, hscale]
    ring

/-- Naturals compare like the numbers that they are multiples of. -/
theorem compare_scaled {a b : ℕ} {x y u : ℚ} (hu : 0 < u) (ha : (a : ℚ) = x * u)
    (hb : (b : ℚ) = y * u) : (a ≤ b ↔ x ≤ y) ∧ (a < b ↔ x < y) := by
  constructor
  · rw [← Nat.cast_le (α := ℚ), ha, hb, mul_le_mul_iff_left₀ hu]
  · rw [← Nat.cast_lt (α := ℚ), ha, hb, mul_lt_mul_iff_left₀ hu]

/-- What is tested is that the decimal rounds to the double. -/
theorem contains_iff (hm : IsCanonical m e) (c : ℕ) (k : ℤ) :
    (ofDouble m e).contains c k = true ↔ RoundsTo (c * 10 ^ k) m e := by
  obtain ⟨u, hu, hpoint, hend⟩ := point_spec m e k
  have hlow : (((ofDouble m e).low * (Decimal.power k).2 : ℕ) : ℚ) = (m - reach m e) * 2 ^ e * u := by
    refine (hend _).trans ?_
    congr 2
    have hpos := hm.pos
    unfold reach
    show ((4 * m - (if m = 2 ^ 52 ∧ -1074 < e then 1 else 2) : ℕ) : ℚ) / 4 = _
    split_ifs <;> rw [Nat.cast_sub (by omega)] <;> push_cast <;> ring
  have hhigh : (((ofDouble m e).high * (Decimal.power k).2 : ℕ) : ℚ) = (m + 1 / 2) * 2 ^ e * u := by
    refine (hend _).trans ?_
    push_cast
    ring
  -- Both ends and the decimal are compared in the same units.
  obtain ⟨hlowle, hlowlt⟩ := compare_scaled hu hlow (hpoint c)
  obtain ⟨hhighle, hhighlt⟩ := compare_scaled hu (hpoint c) hhigh
  unfold contains
  simp only []
  split_ifs with hclosed
  · have heven : m % 2 = 0 := beq_iff_eq.mp hclosed
    rw [Bool.and_eq_true, decide_eq_true_eq, decide_eq_true_eq, hlowle, hhighle]
    constructor
    · rintro ⟨hl, hh⟩
      exact ⟨hl, hh, fun hodd => by omega⟩
    · exact fun h => ⟨h.low, h.high⟩
  · have hodd : m % 2 = 1 := by
      have : m % 2 ≠ 0 := fun h => hclosed (beq_iff_eq.mpr h)
      omega
    rw [Bool.and_eq_true, decide_eq_true_eq, decide_eq_true_eq, hlowlt, hhighlt]
    constructor
    · rintro ⟨hl, hh⟩
      exact ⟨hl.le, hh.le, fun _ => ⟨hl, hh⟩⟩
    · exact fun h => h.inside hodd

/-! ## §2. One grid. -/

/-- The point of a grid below the double, and the next one above. -/
theorem below_spec (m : ℕ) (e : ℤ) (k : ℤ) :
    ((ofDouble m e).below k : ℚ) * 10 ^ k ≤ m * 2 ^ e ∧
      m * 2 ^ e < (((ofDouble m e).below k + 1 : ℕ) : ℚ) * 10 ^ k := by
  obtain ⟨u, hu, hpoint, hend⟩ := point_spec m e k
  have hvalue : (((ofDouble m e).value * (Decimal.power k).2 : ℕ) : ℚ) = m * 2 ^ e * u := by
    refine (hend _).trans ?_
    push_cast
    ring
  have hstep : 0 < (ofDouble m e).denominator * (Decimal.power k).1 :=
    Nat.mul_pos (Nat.pow_pos two_pos) (Nat.pow_pos (by decide))
  constructor
  · rw [← (compare_scaled hu (hpoint _) hvalue).1, Nat.mul_assoc, Nat.mul_comm (Decimal.power k).1]
    exact Nat.div_mul_le_self _ _
  · rw [← (compare_scaled hu hvalue (hpoint _)).2, Nat.mul_assoc, Nat.mul_comm (Decimal.power k).1,
      Nat.mul_comm (_ + 1)]
    exact Nat.lt_mul_div_succ _ hstep

/-- A grid whose step is less than the interval is wide has a point in it, next to the
double. -/
theorem atGrid_isSome (hm : IsCanonical m e) (tie : Tie) {k : ℤ}
    (hfine : (10 : ℚ) ^ k < (1 / 2 + reach m e) * 2 ^ e) :
    ∃ c, (ofDouble m e).atGrid tie k = some c := by
  obtain ⟨hbelow, habove⟩ := below_spec m e k
  have hunit : (0 : ℚ) < 2 ^ e := zpow_pos two_pos e
  have hreach : 0 < reach m e := reach_pos m e
  have hone : (ofDouble m e).contains ((ofDouble m e).below k) k = true ∨
      (ofDouble m e).contains ((ofDouble m e).below k + 1) k = true := by
    rw [contains_iff hm, contains_iff hm]
    by_cases hlow : (m - reach m e) * 2 ^ e < ((ofDouble m e).below k : ℚ) * 10 ^ k
    · have hhigh : ((ofDouble m e).below k : ℚ) * 10 ^ k < (m + 1 / 2) * 2 ^ e := by
        refine hbelow.trans_lt (mul_lt_mul_of_pos_right ?_ hunit)
        linarith
      exact .inl ⟨hlow.le, hhigh.le, fun _ => ⟨hlow, hhigh⟩⟩
    · right
      have hhigh : (((ofDouble m e).below k + 1 : ℕ) : ℚ) * 10 ^ k < (m + 1 / 2) * 2 ^ e := by
        push_cast
        linarith
      have hlow : (m - reach m e) * 2 ^ e < (((ofDouble m e).below k + 1 : ℕ) : ℚ) * 10 ^ k := by
        refine (mul_lt_mul_of_pos_right ?_ hunit).trans habove
        linarith
      exact ⟨hlow.le, hhigh.le, fun _ => ⟨hlow, hhigh⟩⟩
  unfold atGrid
  rcases hone with h | h
  · cases habove : (ofDouble m e).contains ((ofDouble m e).below k + 1) k <;> simp [h, habove]
  · cases hbelow : (ofDouble m e).contains ((ofDouble m e).below k) k <;> simp [h, hbelow]

/-- What is found on a grid rounds to the double. -/
theorem contains_of_atGrid {i : RoundingInterval} {tie : Tie} {k : ℤ} {c : ℕ}
    (h : i.atGrid tie k = some c) : i.contains c k = true := by
  unfold atGrid at h
  cases hbelow : i.contains (i.below k) k <;>
    cases habove : i.contains (i.below k + 1) k <;>
    simp only [hbelow, habove, Option.some.injEq, reduceCtorEq] at h
  · exact h ▸ habove
  · exact h ▸ hbelow
  · split_ifs at h
    · exact h ▸ habove
    · exact h ▸ hbelow

/-! ## §3. The search. -/

/-- If one of the grids has a decimal, the search ends with one. -/
theorem contains_search {i : RoundingInterval} {tie : Tie} {n j : ℕ} (hj : j < n) {k : ℤ}
    (hsome : ∃ c, i.atGrid tie (k - j) = some c) :
    i.contains (i.search tie n k).significand (i.search tie n k).exponent = true := by
  induction n generalizing k j with
  | zero => omega
  | succ n ih =>
    rw [search]
    cases hgrid : i.atGrid tie k with
    | some c => exact contains_of_atGrid hgrid
    | none =>
      cases j with
      | zero =>
        obtain ⟨c, hc⟩ := hsome
        rw [Nat.cast_zero, sub_zero, hgrid] at hc
        cases hc
      | succ j =>
        refine ih (Nat.lt_of_succ_lt_succ hj) ?_
        rw [sub_sub, add_comm 1 (j : ℤ)]
        exact_mod_cast hsome

theorem lt_pow_length (n : ℕ) : n < 10 ^ Decimal.length n :=
  (Nat.length_toDigits_le_iff (by decide) Nat.length_toDigits_pos).mp le_rfl

theorem pow_length_le {n : ℕ} (h : 0 < n) : 10 ^ (Decimal.length n - 1) ≤ n := by
  by_cases hone : Decimal.length n - 1 = 0
  · rwa [hone, pow_zero]
  · refine not_lt.mp fun hlt => ?_
    have hshort : Decimal.length n ≤ Decimal.length n - 1 :=
      (Nat.length_toDigits_le_iff (by decide) (Nat.pos_of_ne_zero hone)).mpr hlt
    omega

/-- The double has a digit on the grid below its magnitude. -/
theorem magnitude_spec (hm : IsCanonical m e) :
    (10 : ℚ) ^ ((ofDouble m e).magnitude - 1) ≤ m * 2 ^ e := by
  obtain ⟨hscale, hpos⟩ := scale_spec m e
  have hvalue : ((ofDouble m e).value : ℚ) = m * 2 ^ e * (ofDouble m e).denominator := by
    show ((4 * m * Nat.pow 2 (e - 2).toNat : ℕ) : ℚ) = _
    rw [Nat.cast_mul, hscale]
    push_cast
    ring
  have hx : (0 : ℚ) < m * 2 ^ e := mul_pos (Nat.cast_pos.mpr hm.pos) (zpow_pos two_pos e)
  generalize (m : ℚ) * 2 ^ e = x at hvalue hx ⊢
  have hpos' : 0 < (ofDouble m e).value := by
    have : (0 : ℚ) < (ofDouble m e).value := hvalue ▸ mul_pos hx hpos
    exact_mod_cast this
  unfold magnitude
  generalize (ofDouble m e).value = v, (ofDouble m e).denominator = d at hvalue hpos hpos' ⊢
  have hd : 0 < d := Nat.cast_pos.mp hpos
  split_ifs with hle
  · have hn : 0 < v / d := Nat.div_pos hle hd
    have hlength := Nat.length_toDigits_pos (b := 10) (n := v / d)
    have hexponent : (Decimal.length (v / d) : ℤ) - 1 = (Decimal.length (v / d) - 1 : ℕ) :=
      (Nat.cast_pred hlength).symm
    rw [hexponent, zpow_natCast]
    calc (10 : ℚ) ^ (Decimal.length (v / d) - 1) ≤ (v / d : ℕ) := by exact_mod_cast pow_length_le hn
      _ ≤ (v : ℚ) / d := Nat.cast_div_le
      _ = x := by rw [hvalue, mul_div_cancel_right₀ _ hpos.ne']
  · rw [show 1 - (Decimal.length (d / v) : ℤ) - 1 = -(Decimal.length (d / v) : ℤ) by ring, zpow_neg,
      zpow_natCast]
    have hlt : d < 10 ^ Decimal.length (d / v) * v := by
      calc d < (d / v + 1) * v := by
            rw [Nat.mul_comm]
            exact Nat.lt_mul_div_succ d hpos'
        _ ≤ 10 ^ Decimal.length (d / v) * v := Nat.mul_le_mul_right v (lt_pow_length _)
    have hlt' : (d : ℚ) < 10 ^ Decimal.length (d / v) * (x * d) := by
      rw [← hvalue]
      exact_mod_cast hlt
    rw [inv_le_iff_one_le_mul₀ (by positivity)]
    refine le_of_mul_le_mul_right ?_ hpos
    linarith

/-- Seventeen digits are enough. -/
theorem contains_search_shortest (hm : IsCanonical m e) (tie : Tie) :
    RoundsTo (((ofDouble m e).search tie 17 ((ofDouble m e).magnitude - 1)).significand *
      10 ^ ((ofDouble m e).search tie 17 ((ofDouble m e).magnitude - 1)).exponent) m e := by
  rw [← contains_iff hm]
  refine contains_search (j := 16) (by omega) (atGrid_isSome hm tie ?_)
  have hmagnitude := magnitude_spec hm
  have hunit : (0 : ℚ) < 2 ^ e := zpow_pos two_pos e
  -- The interval is wider than the double by `10 ^ 16`, since `2 ^ 53 < 10 ^ 16`.
  have hwide : (m : ℚ) < (1 / 2 + reach m e) * 10 ^ 16 := by
    have hlt : (m : ℚ) < 2 ^ 53 := by exact_mod_cast hm.lt
    unfold reach
    split_ifs with hpower
    · rw [hpower.1]
      norm_num
    · linarith
  rw [zpow_sub₀ (by norm_num)]
  calc (10 : ℚ) ^ ((ofDouble m e).magnitude - 1) / 10 ^ ((16 : ℕ) : ℤ)
      ≤ m * 2 ^ e / 10 ^ 16 := by
        rw [zpow_natCast]
        exact div_le_div_of_nonneg_right hmagnitude (by positivity)
    _ < (1 / 2 + reach m e) * 2 ^ e := by
        rw [div_lt_iff₀ (by positivity)]
        linarith [mul_lt_mul_of_pos_right hwide hunit]

theorem trim_value (n : ℕ) (d : Decimal) :
    ((d.trim n).significand : ℚ) * 10 ^ (d.trim n).exponent = d.significand * 10 ^ d.exponent := by
  induction n generalizing d with
  | zero => rfl
  | succ n ih =>
    rw [Decimal.trim]
    split_ifs with hzero
    · have hsplit : (d.significand : ℚ) = (d.significand / 10 : ℕ) * 10 := by
        exact_mod_cast (Nat.div_mul_cancel (Nat.dvd_of_mod_eq_zero hzero)).symm
      rw [ih, hsplit, zpow_add_one₀ (by norm_num)]
      ring
    · rfl

/-- **The shortest decimal rounds to the double**, and it is not zero. -/
theorem shortest_spec (hm : IsCanonical m e) (tie : Tie) :
    0 < ((ofDouble m e).shortest tie).significand ∧
      RoundsTo (((ofDouble m e).shortest tie).significand *
        10 ^ ((ofDouble m e).shortest tie).exponent) m e := by
  have hrounds : RoundsTo (((ofDouble m e).shortest tie).significand *
      10 ^ ((ofDouble m e).shortest tie).exponent) m e := by
    rw [shortest, trim_value]
    exact contains_search_shortest hm tie
  refine ⟨Nat.pos_of_ne_zero fun hzero => ?_, hrounds⟩
  have hlow := hrounds.low
  rw [hzero, Nat.cast_zero, zero_mul] at hlow
  have hone : (1 : ℚ) ≤ m := Nat.one_le_cast.mpr hm.pos
  have hpositive : 0 < (m - reach m e) * 2 ^ e :=
    mul_pos (by linarith [reach_le m e]) (zpow_pos two_pos e)
  linarith

end SolidTree.RoundingInterval
