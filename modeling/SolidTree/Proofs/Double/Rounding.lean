/-
  SolidTree.Proofs.Double.Rounding
  ────────────────────────────────
  **ROUNDING TO THE NEAREST DOUBLE.**

  A number rounds to a double if it lies in the double's rounding interval:
  half a unit up and down, but a quarter down from a power of two.  Every
  such number is turned into that double:

      Locates           — what the bits beyond a mantissa say of a number
      roundedMantissa   — the nearest whole number, the even one of two
      roundWithAccuracy — the double whose interval the number lies in

  The exponent is chosen before the mantissa is rounded.  Just below a power
  of two it is one too small, and then the mantissa is rounded up to one
  digit too many, which is dropped again.
-/
import Mathlib
import SolidTree.Number.Binary64

namespace SolidTree.Binary64

open Float.Model
open Float.Model.UnpackedFloat

/-! ## §1. Finite doubles. -/

/-- Mantissa and exponent of a finite double: all 53 binary digits are used unless the
exponent is the least one. -/
structure IsCanonical (m : ℕ) (e : ℤ) : Prop where
  pos : 0 < m
  lt : m < 2 ^ 53
  least : -1074 ≤ e
  greatest : e ≤ 971
  full : 2 ^ 52 ≤ m ∨ e = -1074

/-- How far the rounding interval reaches below the double, in units of its last
digit. -/
def reach (m : ℕ) (e : ℤ) : ℚ := if m = 2 ^ 52 ∧ -1074 < e then 1 / 4 else 1 / 2

/-- The number lies in the rounding interval of a double. The ends belong to it iff the
mantissa is even. -/
structure RoundsTo (x : ℚ) (m : ℕ) (e : ℤ) : Prop where
  low : (m - reach m e) * 2 ^ e ≤ x
  high : x ≤ (m + 1 / 2) * 2 ^ e
  inside : m % 2 = 1 → (m - reach m e) * 2 ^ e < x ∧ x < (m + 1 / 2) * 2 ^ e

theorem reach_pos (m : ℕ) (e : ℤ) : 0 < reach m e := by
  unfold reach
  split_ifs <;> norm_num

theorem reach_le (m : ℕ) (e : ℤ) : reach m e ≤ 1 / 2 := by
  unfold reach
  split_ifs <;> norm_num

theorem targetExponent_eq (t : ℤ) : Format.binary64.targetExponent t = max (t - 53) (-1074) := by
  simp [Format.targetExponent, Format.mantissaBits, Format.minExponent]

/-! ## §2. Mantissas with the bits beyond them. -/

/-- The mantissa is the whole part of the number, and the two bits compare its fraction
with zero and with a half. -/
def Locates : ExtendedMantissa → ℚ → Prop
  | ⟨m, false, false⟩, x => x = m
  | ⟨m, false, true⟩, x => m < x ∧ x < m + 1 / 2
  | ⟨m, true, false⟩, x => x = m + 1 / 2
  | ⟨m, true, true⟩, x => m + 1 / 2 < x ∧ x < m + 1

theorem Locates.bounds {em : ExtendedMantissa} {x : ℚ} (h : Locates em x) :
    (em.mantissa : ℚ) ≤ x ∧ x < em.mantissa + 1 := by
  obtain ⟨m, round, sticky⟩ := em
  cases round <;> cases sticky <;> simp only [Locates] at h ⊢ <;> constructor <;> linarith

/-- A shift by one digit is a division by two. -/
theorem Locates.shiftRightOne {em : ExtendedMantissa} {x : ℚ} (h : Locates em x) :
    Locates em.shiftRightOne (x / 2) := by
  obtain ⟨m, round, sticky⟩ := em
  have hm : (m : ℚ) = 2 * (m / 2 : ℕ) + (m % 2 : ℕ) := by exact_mod_cast (Nat.div_add_mod m 2).symm
  have hone : ((1 : ℕ) != 0) = true := rfl
  rcases Nat.mod_two_eq_zero_or_one m with hlast | hlast <;>
    cases round <;> cases sticky <;>
    simp only [Locates, ExtendedMantissa.shiftRightOne, hlast, Nat.cast_zero, Nat.cast_one,
      bne_self_eq_false, hone, Bool.or_false, Bool.or_true] at h hm ⊢ <;>
    first
    | linarith
    | constructor <;> linarith

theorem Locates.shiftRight {em : ExtendedMantissa} {x : ℚ} (h : Locates em x) (n : ℕ) :
    Locates (em >>> n) (x / 2 ^ n) := by
  show Locates (n.repeat ExtendedMantissa.shiftRightOne em) _
  induction n with
  | zero => simpa [Nat.repeat] using h
  | succ n ih =>
    rw [pow_succ, ← div_div]
    exact ih.shiftRightOne

/-- The mantissa is rounded to a whole number within a half, and to an even one where
two are at the same distance. -/
theorem Locates.roundedMantissa_eq {em : ExtendedMantissa} {x : ℚ} (h : Locates em x) {m : ℕ}
    (hlow : (m : ℚ) - 1 / 2 ≤ x) (hhigh : x ≤ m + 1 / 2)
    (hodd : m % 2 = 1 → (m : ℚ) - 1 / 2 < x ∧ x < m + 1 / 2) :
    em.roundedMantissa = m := by
  obtain ⟨k, round, sticky⟩ := em
  cases round <;> cases sticky <;>
    simp only [Locates, ExtendedMantissa.roundedMantissa, ExtendedMantissa.accuracy,
      Accuracy.roundToNearestEven] at h ⊢
  · have hkm : (k : ℚ) < m + 1 := by linarith
    have hmk : (m : ℚ) < k + 1 := by linarith
    norm_cast at hkm hmk
    omega
  · have hkm : (k : ℚ) < m + 1 := by linarith
    have hmk : (m : ℚ) < k + 1 := by linarith
    norm_cast at hkm hmk
    omega
  · -- The number is in the middle between `k` and `k + 1`.
    have hkm : (k : ℚ) ≤ m := by linarith
    have hmk : (m : ℚ) ≤ k + 1 := by linarith
    have hne : m % 2 = 1 → (m : ℚ) ≠ k ∧ (m : ℚ) ≠ k + 1 := fun hm =>
      ⟨fun heq => by linarith [(hodd hm).2], fun heq => by linarith [(hodd hm).1]⟩
    norm_cast at hkm hmk hne
    omega
  · have hkm : (k : ℚ) < m := by linarith
    have hmk : (m : ℚ) < k + 2 := by linarith
    norm_cast at hkm hmk
    omega

/-- What is said of a number whose whole part is `m`. -/
theorem locates_accuracyOfFraction {n d : ℕ} (hd : 0 < d) :
    Locates (.ofMantissaAndAccuracy (n / d) (accuracyOfFraction (n % d) d)) (n / d) := by
  have hd' : (0 : ℚ) < d := Nat.cast_pos.mpr hd
  have hsplit : (n : ℚ) = d * (n / d : ℕ) + (n % d : ℕ) := by exact_mod_cast (Nat.div_add_mod n d).symm
  have hlt : ((n % d : ℕ) : ℚ) < d := Nat.cast_lt.mpr (Nat.mod_lt n hd)
  have hfraction : (n : ℚ) / d = (n / d : ℕ) + ((n % d : ℕ) : ℚ) / d := by
    rw [hsplit]
    field_simp
  rw [hfraction]
  generalize (n / d : ℕ) = k, n % d = r at hlt ⊢
  unfold accuracyOfFraction
  split_ifs with hr
  · simp [ExtendedMantissa.ofMantissaAndAccuracy, Locates, hr]
  · have hpos : (0 : ℚ) < (r : ℚ) / d := div_pos (Nat.cast_pos.mpr (Nat.pos_of_ne_zero hr)) hd'
    have hone : (r : ℚ) / d < 1 := (div_lt_one₀ hd').mpr hlt
    rcases Nat.lt_trichotomy (2 * r) d with h | h | h
    · rw [Nat.compare_eq_lt.mpr h]
      have hhalf : (r : ℚ) / d < 1 / 2 := by
        rw [div_lt_div_iff₀ hd' two_pos]
        exact_mod_cast by omega
      exact ⟨by linarith, by linarith⟩
    · rw [Nat.compare_eq_eq.mpr h]
      have hhalf : (r : ℚ) / d = 1 / 2 := by
        rw [div_eq_div_iff hd'.ne' two_ne_zero]
        exact_mod_cast by omega
      show _ = _
      rw [hhalf]
    · rw [Nat.compare_eq_gt.mpr h]
      have hhalf : 1 / 2 < (r : ℚ) / d := by
        rw [div_lt_div_iff₀ two_pos hd']
        exact_mod_cast by omega
      exact ⟨by linarith, by linarith⟩

/-! ## §3. Doubles. -/

/-- A mantissa that fits is not shifted. -/
theorem shiftToTargetExponent_canonical {m : ℕ} {e : ℤ} (h : IsCanonical m e) :
    shiftToTargetExponent .binary64 m e .exact = (⟨m, false, false⟩, e) := by
  have hlog : m.log2 < 53 := (Nat.log2_lt h.pos.ne').mpr h.lt
  have hshift : (Format.binary64.targetExponent (totalExponent m e) - e).toNat = 0 := by
    have := h.least
    rw [targetExponent_eq, totalExponent]
    omega
  simp only [shiftToTargetExponent, shiftToExponent, hshift]
  simp [ExtendedMantissa.ofMantissaAndAccuracy, HShiftRight.hShiftRight, Nat.repeat]

/-- A power of two that takes one digit too many is shifted by one. -/
theorem shiftToTargetExponent_carry {e : ℤ} (h : -1074 ≤ e) :
    shiftToTargetExponent .binary64 (2 ^ 53) e .exact = (⟨2 ^ 52, false, false⟩, e + 1) := by
  have hshift : (Format.binary64.targetExponent (totalExponent (2 ^ 53) e) - e).toNat = 1 := by
    rw [targetExponent_eq, totalExponent, Nat.log2_two_pow]
    omega
  simp only [shiftToTargetExponent, shiftToExponent, hshift]
  rfl

theorem lt_two_zpow_totalExponent {M : ℕ} {y : ℚ} (E : ℤ) (hhigh : y < M + 1) :
    y * 2 ^ E < 2 ^ totalExponent M E := by
  have hM : (M : ℚ) + 1 ≤ 2 ^ (M.log2 + 1) := by exact_mod_cast Nat.lt_log2_self
  calc y * 2 ^ E
      < 2 ^ (M.log2 + 1) * 2 ^ E := mul_lt_mul_of_pos_right (by linarith) (zpow_pos two_pos E)
    _ = 2 ^ totalExponent M E := by
      rw [totalExponent, zpow_add₀ two_ne_zero, ← zpow_natCast, Nat.cast_add, Nat.cast_one]

theorem two_zpow_totalExponent_le {M : ℕ} {y : ℚ} (E : ℤ) (hM : M ≠ 0) (hlow : (M : ℚ) ≤ y) :
    2 ^ (totalExponent M E - 1) ≤ y * 2 ^ E := by
  have hlog : (2 : ℚ) ^ M.log2 ≤ M := by exact_mod_cast Nat.log2_self_le hM
  calc (2 : ℚ) ^ (totalExponent M E - 1)
      = 2 ^ M.log2 * 2 ^ E := by
        rw [totalExponent, ← zpow_natCast, ← zpow_add₀ two_ne_zero]
        congr 1
        ring
    _ ≤ y * 2 ^ E := mul_le_mul_of_nonneg_right (by linarith) (zpow_pos two_pos E).le

namespace RoundsTo

variable {x : ℚ} {m : ℕ} {e : ℤ}

theorem lt_two_zpow (h : RoundsTo x m e) (hm : IsCanonical m e) : x < 2 ^ (53 + e) := by
  have hunit : (0 : ℚ) < 2 ^ e := zpow_pos two_pos e
  have htop : (m : ℚ) + 1 ≤ 2 ^ 53 := by exact_mod_cast hm.lt
  calc x ≤ (m + 1 / 2) * 2 ^ e := h.high
    _ < 2 ^ 53 * 2 ^ e := mul_lt_mul_of_pos_right (by linarith) hunit
    _ = 2 ^ (53 + e) := by rw [zpow_add₀ two_ne_zero]; norm_num

theorem two_zpow_le (h : RoundsTo x m e) (hm : 2 ^ 52 < m) : 2 ^ (52 + e) ≤ x := by
  have hlow : (2 : ℚ) ^ 52 + 1 ≤ m := by exact_mod_cast hm
  calc (2 : ℚ) ^ (52 + e) = 2 ^ 52 * 2 ^ e := by rw [zpow_add₀ two_ne_zero]; norm_num
    _ ≤ (m - reach m e) * 2 ^ e :=
      mul_le_mul_of_nonneg_right (by linarith [reach_le m e]) (zpow_pos two_pos e).le
    _ ≤ x := h.low

theorem two_zpow_le_of_power (h : RoundsTo x (2 ^ 52) e) : 2 ^ (51 + e) ≤ x := by
  calc (2 : ℚ) ^ (51 + e) = 2 ^ 51 * 2 ^ e := by rw [zpow_add₀ two_ne_zero]; norm_num
    _ ≤ ((2 ^ 52 : ℕ) - reach (2 ^ 52) e) * 2 ^ e := by
      refine mul_le_mul_of_nonneg_right ?_ (zpow_pos two_pos e).le
      push_cast
      linarith [reach_le (2 ^ 52) e]
    _ ≤ x := h.low

end RoundsTo

/-- The first exponent that is tried is that of the double, or one less just below a
power of two. -/
theorem targetExponent_of_roundsTo {M : ℕ} {E : ℤ} {y : ℚ} (hlow : (M : ℚ) ≤ y)
    (hhigh : y < M + 1) {m : ℕ} {e : ℤ} (hm : IsCanonical m e) (hround : RoundsTo (y * 2 ^ E) m e)
    (hE : E ≤ Format.binary64.targetExponent (totalExponent M E)) :
    Format.binary64.targetExponent (totalExponent M E) = e ∨
      Format.binary64.targetExponent (totalExponent M E) = e - 1 ∧ m = 2 ^ 52 ∧
        y * 2 ^ E < 2 ^ (52 + e) := by
  have hbelow := lt_two_zpow_totalExponent E hhigh
  have hleast := hm.least
  rw [targetExponent_eq] at hE ⊢
  have hle : max (totalExponent M E - 53) (-1074) ≤ e := by
    by_cases hM : M = 0
    · subst hM
      have hone : totalExponent 0 E = 1 + E := by simp [totalExponent]
      omega
    · have hlt := (two_zpow_totalExponent_le E hM hlow).trans_lt (hround.lt_two_zpow hm)
      rw [zpow_lt_zpow_iff_right₀ one_lt_two] at hlt
      omega
  rcases hm.full with hfull | hend
  · rcases hfull.lt_or_eq with hlt | rfl
    · have hlt := (hround.two_zpow_le hlt).trans_lt hbelow
      rw [zpow_lt_zpow_iff_right₀ one_lt_two] at hlt
      exact .inl (by omega)
    · have hlt := hround.two_zpow_le_of_power.trans_lt hbelow
      rw [zpow_lt_zpow_iff_right₀ one_lt_two] at hlt
      by_cases heq : max (totalExponent M E - 53) (-1074) = e
      · exact .inl heq
      · refine .inr ⟨by omega, rfl, hbelow.trans_le ?_⟩
        exact zpow_le_zpow_right₀ one_le_two (by omega)
  · exact .inl (by omega)

/-- The mantissa of the double, counted in its own last digit. -/
theorem Locates.roundedMantissa_of_roundsTo {em : ExtendedMantissa} {z : ℚ} (h : Locates em z)
    {m : ℕ} {e : ℤ} (hround : RoundsTo (z * 2 ^ e) m e) : em.roundedMantissa = m := by
  have hunit : (0 : ℚ) < 2 ^ e := zpow_pos two_pos e
  have hreach := reach_le m e
  refine h.roundedMantissa_eq ?_ (le_of_mul_le_mul_right hround.high hunit) fun hodd => ?_
  · linarith [le_of_mul_le_mul_right hround.low hunit]
  · obtain ⟨hlow, hhigh⟩ := hround.inside hodd
    exact ⟨by linarith [lt_of_mul_lt_mul_right hlow hunit.le],
      lt_of_mul_lt_mul_right hhigh hunit.le⟩

/-- The mantissa of a power of two, counted in one digit more. -/
theorem Locates.roundedMantissa_carry {em : ExtendedMantissa} {z : ℚ} (h : Locates em z) {e : ℤ}
    (hleast : -1074 ≤ e) (hround : RoundsTo (z * 2 ^ e) (2 ^ 52) (e + 1))
    (hbelow : z * 2 ^ e < 2 ^ (53 + e)) : em.roundedMantissa = 2 ^ 53 := by
  have hunit : (0 : ℚ) < 2 ^ e := zpow_pos two_pos e
  have hreach : reach (2 ^ 52) (e + 1) = 1 / 4 := if_pos ⟨rfl, by omega⟩
  have hhigh : z < 2 ^ 53 := by
    refine lt_of_mul_lt_mul_right (hbelow.trans_eq ?_) hunit.le
    rw [zpow_add₀ two_ne_zero]
    norm_num
  have hlow : (2 : ℚ) ^ 53 - 1 / 2 ≤ z := by
    refine le_of_mul_le_mul_right (le_trans (le_of_eq ?_) hround.low) hunit
    rw [hreach, zpow_add_one₀ two_ne_zero]
    push_cast
    ring
  refine h.roundedMantissa_eq ?_ ?_ fun hodd => ?_
  · exact_mod_cast hlow
  · push_cast
    linarith
  · norm_num at hodd

/-- **Every number is rounded to the double whose rounding interval it lies in**, whatever
mantissa and exponent it comes with, as long as no digits are missing. -/
theorem roundWithAccuracy_eq {M : ℕ} {E : ℤ} {acc : Accuracy} {y : ℚ}
    (hlocates : Locates (.ofMantissaAndAccuracy M acc) y) {m : ℕ} {e : ℤ} (hm : IsCanonical m e)
    (hround : RoundsTo (y * 2 ^ E) m e)
    (hE : E ≤ Format.binary64.targetExponent (totalExponent M E)) (sign : Sign) :
    roundWithAccuracy .binary64 sign M E acc = .finite sign m e hm.pos := by
  have hmantissa : (ExtendedMantissa.ofMantissaAndAccuracy M acc).mantissa = M := by
    rcases acc with _ | o
    · rfl
    · cases o <;> rfl
  obtain ⟨hlow, hhigh⟩ := hmantissa ▸ hlocates.bounds
  have hcases := targetExponent_of_roundsTo hlow hhigh hm hround hE
  generalize htarget : Format.binary64.targetExponent (totalExponent M E) = T at hE hcases
  -- What is located after the first shift, in units of the exponent that is tried.
  obtain ⟨n, rfl⟩ := Int.le.dest hE
  have hshift : shiftToTargetExponent .binary64 M E acc
      = (ExtendedMantissa.ofMantissaAndAccuracy M acc >>> n, E + n) := by
    simp [shiftToTargetExponent, shiftToExponent, htarget]
  have hshifted := hlocates.shiftRight n
  have hunits : y / 2 ^ n * 2 ^ (E + n) = y * 2 ^ E := by
    rw [zpow_add₀ two_ne_zero, zpow_natCast]
    field_simp
  generalize ExtendedMantissa.ofMantissaAndAccuracy M acc >>> n = em at hshift hshifted
  generalize y / 2 ^ n = z at hshifted hunits
  rw [← hunits] at hround hcases
  rcases hcases with rfl | ⟨hless, rfl, hbelow⟩
  · have hrounded := hshifted.roundedMantissa_of_roundsTo hround
    simp only [roundWithAccuracy, hshift, hrounded, shiftToTargetExponent_canonical hm]
    exact dif_neg hm.pos.ne'
  · obtain rfl : e = E + n + 1 := by omega
    have hleast : -1074 ≤ E + (n : ℤ) := by
      rw [← htarget, targetExponent_eq]
      exact le_max_right _ _
    have htop : 52 + (E + (n : ℤ) + 1) = 53 + (E + n) := by ring
    have hrounded := hshifted.roundedMantissa_carry hleast hround (htop ▸ hbelow)
    simp only [roundWithAccuracy, hshift, hrounded, shiftToTargetExponent_carry hleast]
    exact dif_neg (by decide)

/-! ## §4. Products and quotients. -/

/-- A mantissa of at least 53 digits misses none. -/
theorem le_targetExponent {M : ℕ} (hM : 2 ^ 52 ≤ M) (E : ℤ) :
    E ≤ Format.binary64.targetExponent (totalExponent M E) := by
  have hlog : 52 ≤ M.log2 := (Nat.le_log2 (by omega)).mpr hM
  rw [targetExponent_eq, totalExponent]
  omega

theorem locates_exact (M : ℕ) : Locates (.ofMantissaAndAccuracy M .exact) M := rfl

/-- A product is rounded to the double whose rounding interval it lies in. -/
theorem mul_eq {m₁ m₂ : ℕ} {e₁ e₂ : ℤ} (h₁ : 0 < m₁) (h₂ : 0 < m₂) (hfull : 2 ^ 52 ≤ m₁ * m₂)
    {m : ℕ} {e : ℤ} (hm : IsCanonical m e) (hround : RoundsTo (m₁ * 2 ^ e₁ * (m₂ * 2 ^ e₂)) m e)
    (s₁ s₂ : Sign) :
    UnpackedFloat.mul .binary64 (.finite s₁ m₁ e₁ h₁) (.finite s₂ m₂ e₂ h₂)
      = .finite (s₁ * s₂) m e hm.pos := by
  refine roundWithAccuracy_eq (locates_exact _) hm ?_ (le_targetExponent hfull _) _
  convert hround using 1
  rw [zpow_add₀ two_ne_zero]
  push_cast
  ring

/-- A quotient is rounded to the double whose rounding interval it lies in. -/
theorem div_eq {m₁ m₂ : ℕ} {e₁ e₂ : ℤ} (h₁ : 0 < m₁) (h₂ : 0 < m₂) {m : ℕ} {e : ℤ}
    (hm : IsCanonical m e) (hround : RoundsTo (m₁ * 2 ^ e₁ / (m₂ * 2 ^ e₂)) m e) (s₁ s₂ : Sign) :
    UnpackedFloat.div .binary64 (.finite s₁ m₁ e₁ h₁) (.finite s₂ m₂ e₂ h₂)
      = .finite (s₁ / s₂) m e hm.pos := by
  have hdivided : (m₂ : ℚ) ≠ 0 := Nat.cast_ne_zero.mpr h₂.ne'
  simp only [UnpackedFloat.div, divCore]
  generalize htarget : min (e₁ - e₂) _ = T
  have hT : T ≤ e₁ - e₂ := htarget ▸ min_le_left _ _
  obtain ⟨n, hn⟩ := Int.le.dest hT
  rw [← hn, add_sub_cancel_left, Int.toNat_natCast]
  refine roundWithAccuracy_eq (locates_accuracyOfFraction h₂) hm ?_ ?_ _
  · convert hround using 1
    have hsplit : (2 : ℚ) ^ e₁ = 2 ^ T * 2 ^ n * 2 ^ e₂ := by
      rw [← zpow_natCast, ← zpow_add₀ two_ne_zero, ← zpow_add₀ two_ne_zero]
      congr 1
      omega
    rw [hsplit, Nat.shiftLeft_eq]
    push_cast
    field_simp
  · -- Either the exponent is the least one, or enough digits were put behind.
    rw [targetExponent_eq, totalExponent, totalExponent] at htarget
    by_cases hleast : T ≤ -1074
    · rw [targetExponent_eq]
      exact hleast.trans (le_max_right _ _)
    · refine le_targetExponent ((Nat.le_div_iff_mul_le h₂).mpr ?_) T
      calc 2 ^ 52 * m₂ ≤ 2 ^ 52 * 2 ^ (m₂.log2 + 1) :=
            Nat.mul_le_mul_left _ Nat.lt_log2_self.le
        _ = 2 ^ (m₂.log2 + 53) := by rw [← pow_add]; congr 1; omega
        _ ≤ 2 ^ (m₁.log2 + n) := Nat.pow_le_pow_right two_pos (by omega)
        _ ≤ m₁ <<< n := by
          rw [Nat.shiftLeft_eq, pow_add]
          exact Nat.mul_le_mul_right _ (Nat.log2_self_le h₁.ne')

end SolidTree.Binary64
