/-
  SolidTree.Proofs.Double.Value
  ─────────────────────────────
  **WHAT DOUBLES STAND FOR.**

  A finite double stands for a rational number, the infinities for those of
  the extended reals, and only "not a number" stands for nothing:

      value x      — the rational number, zero where there is none
      extended x   — the extended real

  Doubles are compared by exponent and then by mantissa.  For mantissas that
  use all of their digits this is the order of what they stand for.

  Main results:
    * `le_iff`, `lt_iff` — numbers are ordered like what they stand for
    * `beq_iff` — two of them are equal if they stand for the same
-/
import SolidTree.Number.Extended
import SolidTree.Proofs.Double.Packing

namespace SolidTree.Binary64

open Float.Model (UnpackedFloat)
open Float.Model.UnpackedFloat (Sign)

/-! ## §1. Values. -/

/-- The rational number of an unpacked double, zero for one without. -/
def rational : UnpackedFloat → ℚ
  | .finite sign m e _ => (sign.apply m : ℤ) * 2 ^ e
  | _ => 0

/-- The rational number that a finite double stands for. -/
def value (x : Float) : ℚ := rational x.toModel.unpack

/-- The extended real of an unpacked double. -/
noncomputable def real : UnpackedFloat → EReal
  | .infinity .positive => ⊤
  | .infinity .negative => ⊥
  | u => ((rational u : ℝ) : EReal)

/-- The number that a double stands for, also an infinity. -/
noncomputable def extended (x : Float) : EReal := real x.toModel.unpack

/-- An unpacked number whose mantissa and exponent are those of a double. -/
def IsProper : UnpackedFloat → Prop
  | .finite _ m e _ => IsCanonical m e
  | .notANumber => False
  | _ => True

theorem isProper_of_unpack {x : Float} (h : x.toModel.unpack ≠ .notANumber) :
    IsProper x.toModel.unpack := by
  cases hx : x.toModel.unpack with
  | finite s m e hm => exact isCanonical_of_unpack hx
  | notANumber => exact absurd hx h
  | _ => trivial

/-! ## §2. Order. -/

/-- Canonical mantissas and exponents are ordered like the numbers they stand for. -/
theorem compare_canonical {m₁ m₂ : ℕ} {e₁ e₂ : ℤ} (h₁ : IsCanonical m₁ e₁)
    (h₂ : IsCanonical m₂ e₂) :
    (compare e₁ e₂).then (compare m₁ m₂) = cmp ((m₁ : ℚ) * 2 ^ e₁) (m₂ * 2 ^ e₂) := by
  -- A larger exponent outweighs every mantissa, since all digits are in use above it.
  have hexponent {m m' : ℕ} {e e' : ℤ} (h : IsCanonical m e) (h' : IsCanonical m' e')
      (hlt : e < e') : (m : ℚ) * 2 ^ e < m' * 2 ^ e' := by
    have hfull : 2 ^ 52 ≤ m' := h'.full.resolve_right (by have := h.least; omega)
    calc (m : ℚ) * 2 ^ e < 2 ^ 53 * 2 ^ e :=
          mul_lt_mul_of_pos_right (by exact_mod_cast h.lt) (zpow_pos two_pos e)
      _ = 2 ^ 52 * 2 ^ (e + 1) := by rw [zpow_add_one₀ two_ne_zero]; ring
      _ ≤ 2 ^ 52 * 2 ^ e' :=
        mul_le_mul_of_nonneg_left (zpow_le_zpow_right₀ one_le_two hlt) (by positivity)
      _ ≤ m' * 2 ^ e' :=
        mul_le_mul_of_nonneg_right (by exact_mod_cast hfull) (zpow_pos two_pos e').le
  rcases lt_trichotomy e₁ e₂ with hlt | rfl | hgt
  · rw [Int.compare_eq_lt.mpr hlt, (cmp_eq_lt_iff _ _).mpr (hexponent h₁ h₂ hlt)]
    rfl
  · have hmono : StrictMono fun m : ℕ => (m : ℚ) * 2 ^ e₁ := fun a b hab =>
      mul_lt_mul_of_pos_right (Nat.cast_lt.mpr hab) (zpow_pos two_pos e₁)
    rw [Int.compare_eq_eq.mpr rfl, hmono.cmp_map_eq, cmp_eq_compare]
    rfl
  · rw [Int.compare_eq_gt.mpr hgt, (cmp_eq_gt_iff _ _).mpr (hexponent h₂ h₁ hgt)]
    rfl

theorem rational_positive {m : ℕ} {e : ℤ} (h : 0 < m) :
    rational (.finite .positive m e h) = m * 2 ^ e := rfl

theorem rational_negative {m : ℕ} {e : ℤ} (h : 0 < m) :
    rational (.finite .negative m e h) = -(m * 2 ^ e) := by
  show ((-(m : ℤ) : ℤ) : ℚ) * 2 ^ e = _
  push_cast
  exact neg_mul _ _

theorem magnitude_pos {m : ℕ} (h : 0 < m) (e : ℤ) : (0 : ℚ) < m * 2 ^ e :=
  mul_pos (Nat.cast_pos.mpr h) (zpow_pos two_pos e)

theorem rational_positive_pos {m : ℕ} {e : ℤ} (h : 0 < m) :
    0 < rational (.finite .positive m e h) := magnitude_pos h e

theorem rational_negative_neg {m : ℕ} {e : ℤ} (h : 0 < m) :
    rational (.finite .negative m e h) < 0 := by
  rw [rational_negative]
  exact neg_neg_of_pos (magnitude_pos h e)

theorem cmp_real (a b : ℚ) : cmp ((a : ℝ) : EReal) ((b : ℝ) : EReal) = cmp a b := by
  have hmono : StrictMono fun a : ℚ => ((a : ℝ) : EReal) := fun a b h =>
    EReal.coe_lt_coe_iff.mpr (Rat.cast_lt.mpr h)
  exact hmono.cmp_map_eq a b

/-- Numbers are compared like what they stand for. -/
theorem compare_eq {u v : UnpackedFloat} (hu : IsProper u) (hv : IsProper v) :
    u.compare v = some (cmp (real u) (real v)) := by
  have hlt {a b : ℚ} (h : a < b) : some Ordering.lt = some (cmp ((a : ℝ) : EReal) (b : ℝ)) := by
    rw [cmp_real, (cmp_eq_lt_iff a b).mpr h]
  have hgt {a b : ℚ} (h : b < a) : some Ordering.gt = some (cmp ((a : ℝ) : EReal) (b : ℝ)) := by
    rw [cmp_real, (cmp_eq_gt_iff a b).mpr h]
  have hneg : StrictAnti fun a : ℚ => -a := fun _ _ h => neg_lt_neg h
  have htop (a : ℝ) : cmp (⊤ : EReal) a = .gt := (cmp_eq_gt_iff _ _).mpr (EReal.coe_lt_top a)
  have hbot (a : ℝ) : cmp (⊥ : EReal) a = .lt := (cmp_eq_lt_iff _ _).mpr (EReal.bot_lt_coe a)
  have htop' (a : ℝ) : cmp (a : EReal) ⊤ = .lt := (cmp_eq_lt_iff _ _).mpr (EReal.coe_lt_top a)
  have hbot' (a : ℝ) : cmp (a : EReal) ⊥ = .gt := (cmp_eq_gt_iff _ _).mpr (EReal.bot_lt_coe a)
  cases u with
  | notANumber => exact hu.elim
  | infinity s =>
    cases v with
    | notANumber => exact hv.elim
    | infinity s' =>
      cases s <;> cases s' <;> simp [UnpackedFloat.compare, real, cmp, cmpUsing] <;> rfl
    | zero _ => cases s <;> simp only [UnpackedFloat.compare, real, htop, hbot]
    | finite s' _ _ _ => cases s <;> simp only [UnpackedFloat.compare, real, htop, hbot]
  | zero _ =>
    cases v with
    | notANumber => exact hv.elim
    | infinity s' => cases s' <;> simp only [UnpackedFloat.compare, real, htop', hbot']
    | zero _ => simp [UnpackedFloat.compare, real, rational, cmp_self_eq_eq]
    | finite s' _ _ hpos =>
      cases s' with
      | positive => exact hlt (rational_positive_pos hpos)
      | negative => exact hgt (rational_negative_neg hpos)
  | finite s m e hpos =>
    cases v with
    | notANumber => exact hv.elim
    | infinity s' => cases s' <;> simp only [UnpackedFloat.compare, real, htop', hbot']
    | zero _ =>
      cases s with
      | positive => exact hgt (rational_positive_pos hpos)
      | negative => exact hlt (rational_negative_neg hpos)
    | finite s' m' e' hpos' =>
      cases s <;> cases s'
      · show some (((compare e e').then (compare m m')).swap) = _
        rw [compare_canonical hu hv, cmp_swap]
        show _ = some (cmp ((rational _ : ℝ) : EReal) (rational _ : ℝ))
        rw [cmp_real, rational_negative, rational_negative, hneg.cmp_map_eq]
      · exact hlt ((rational_negative_neg hpos).trans (rational_positive_pos hpos'))
      · exact hgt ((rational_negative_neg hpos').trans (rational_positive_pos hpos))
      · show some ((compare e e').then (compare m m')) = _
        rw [compare_canonical hu hv]
        show _ = some (cmp ((rational _ : ℝ) : EReal) (rational _ : ℝ))
        rw [cmp_real, rational_positive, rational_positive]

theorem isNumber_iff {x : Float} :
    Scalar.isNumber x = true ↔ x.toModel.unpack ≠ .notANumber := by
  constructor
  · intro h hx
    have hbeq : UnpackedFloat.beq x.toModel.unpack x.toModel.unpack = true := h
    rw [hx] at hbeq
    cases hbeq
  · intro h
    have hx := isProper_of_unpack h
    show UnpackedFloat.beq x.toModel.unpack x.toModel.unpack = true
    rw [UnpackedFloat.beq, compare_eq hx hx, cmp_self_eq_eq]
    rfl

theorem compare_of_isNumber {x y : Float} (hx : Scalar.isNumber x = true)
    (hy : Scalar.isNumber y = true) :
    x.toModel.unpack.compare y.toModel.unpack = some (cmp (extended x) (extended y)) :=
  compare_eq (isProper_of_unpack (isNumber_iff.mp hx)) (isProper_of_unpack (isNumber_iff.mp hy))

/-- Numbers are ordered like what they stand for. -/
theorem le_iff {x y : Float} (hx : Scalar.isNumber x = true) (hy : Scalar.isNumber y = true) :
    x ≤ y ↔ extended x ≤ extended y := by
  have hle : x ≤ y ↔ UnpackedFloat.le x.toModel.unpack y.toModel.unpack = true :=
    ⟨fun h => of_decide_eq_true h, fun h => decide_eq_true h⟩
  rw [hle, UnpackedFloat.le, compare_of_isNumber hx hy]
  show (cmp (extended x) (extended y)).isLE = true ↔ _
  rcases lt_trichotomy (extended x) (extended y) with h | h | h
  · simp [(cmp_eq_lt_iff _ _).mpr h, h.le]
  · simp [(cmp_eq_eq_iff _ _).mpr h, h.le]
  · simp [(cmp_eq_gt_iff _ _).mpr h, h]

theorem lt_iff {x y : Float} (hx : Scalar.isNumber x = true) (hy : Scalar.isNumber y = true) :
    x < y ↔ extended x < extended y := by
  have hlt : x < y ↔ UnpackedFloat.lt x.toModel.unpack y.toModel.unpack = true :=
    ⟨fun h => of_decide_eq_true h, fun h => decide_eq_true h⟩
  rw [hlt, UnpackedFloat.lt, compare_of_isNumber hx hy, beq_iff_eq, Option.some_inj, cmp_eq_lt_iff]

/-- Numbers are equal, as doubles are compared, if they stand for the same. -/
theorem beq_iff {x y : Float} (hx : Scalar.isNumber x = true) (hy : Scalar.isNumber y = true) :
    (x == y) = true ↔ extended x = extended y := by
  show UnpackedFloat.beq x.toModel.unpack y.toModel.unpack = true ↔ _
  rw [UnpackedFloat.beq, compare_of_isNumber hx hy, beq_iff_eq, Option.some_inj, cmp_eq_eq_iff]

end SolidTree.Binary64
