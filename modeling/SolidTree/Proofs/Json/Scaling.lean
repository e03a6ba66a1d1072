/-
  SolidTree.Proofs.Json.Scaling
  ─────────────────────────────
  **NUMBERS OF FEW DIGITS.**

  Scaling in one step rounds twice, once when the digits become a double and
  once for the product or quotient.  The first rounding changes nothing while
  the digits are below 2⁵³, and neither does rounding the power of ten up to
  10²²; so numbers of few digits are read by the standard library as by the
  lawful one, to the nearest double:

      extend_natural              — the digits fit a word
      scale?_short                — one product or quotient of two exact doubles
      float?_standard_eq_nearest  — numbers as they are spelled
-/
import SolidTree.Proofs.Double.Sums
import SolidTree.Proofs.Json.Nearest

namespace SolidTree.JsonLibrary

open Numeral (natural Parts)

/-! ## §1. Digits. -/

theorem natural_le_append (cs ds : List Char) : natural cs ≤ natural (cs ++ ds) := by
  rw [Spelling.natural_append]
  exact (Nat.le_mul_of_pos_left _ (by positivity)).trans (Nat.le_add_right _ _)

/-- No digit is left over if all of them fit a word. -/
theorem extend_natural {digits : List Char} (cs : List Char)
    (h : natural (cs ++ digits) < UInt64.size) :
    extend (natural cs) digits = (natural (cs ++ digits), 0) := by
  induction digits generalizing cs with
  | nil => rw [extend, List.append_nil]
  | cons c rest ih =>
    have hsplit : cs ++ c :: rest = (cs ++ [c]) ++ rest := by simp
    have hlonger : 10 * natural cs + (c.toNat - '0'.toNat) = natural (cs ++ [c]) := by
      simp [natural, List.foldl_append]
    rw [hsplit] at h ⊢
    have hfits : natural (cs ++ [c]) < UInt64.size := (natural_le_append _ rest).trans_lt h
    simp only [extend, hlonger, if_pos hfits]
    exact ih (cs ++ [c]) h

/-! ## §2. Scaling. -/

theorem powerOfTen_eq {k : ℕ} (hk : k < Float.exactlyRepresentablePowersOfTen.size) :
    powerOfTen k = Float.exactlyRepresentablePowersOfTen[k] := by
  have htable : ∀ i : Fin 23, powerOfTen i = Float.exactlyRepresentablePowersOfTen[i] := by
    decide +kernel
  exact htable ⟨k, hk⟩

theorem powerOfTen_spec {k : ℕ} (hk : k ≤ 22) :
    Binary64.IsFactor (powerOfTen k) ∧ Binary64.value (powerOfTen k) = 10 ^ k := by
  have hsize : k < Float.exactlyRepresentablePowersOfTen.size := Nat.lt_succ_of_le hk
  obtain ⟨m, e, hpos, hunpack, hvalue⟩ := Binary64.powerOfTen_unpack hsize
  rw [← powerOfTen_eq hsize] at hunpack
  refine ⟨⟨m, e, hpos, hunpack, ?_⟩, ?_⟩
  · rw [hvalue]
    exact one_le_pow₀ (by norm_num)
  · rw [Binary64.value_of_positive hunpack, hvalue]

/-- A word of at most 53 binary digits is a double. -/
theorem value_toFloat {n : ℕ} (hn : n < 2 ^ 53) :
    Binary64.isFinite n.toUInt64.toFloat = true ∧ Binary64.value n.toUInt64.toFloat = n := by
  rcases n.eq_zero_or_pos with rfl | hpos
  · have hzero : (Nat.toUInt64 0).toFloat.toModel.unpack = .zero .positive := rfl
    exact ⟨Binary64.isFinite_of_zero hzero, by rw [Binary64.value_of_zero hzero, Nat.cast_zero]⟩
  · obtain ⟨m, e, hm, hunpack, -, hvalue⟩ := Binary64.unpack_toFloat hpos hn
    exact ⟨Binary64.isFinite_of_unpack hunpack,
      by rw [Binary64.value_of_positive hunpack, hvalue]⟩

/-- A product or quotient of two doubles that are exact is what the nearest double is made of. -/
theorem scale?_short {n : ℕ} (hn : n < 2 ^ 53) {k : ℤ} (hk : k.natAbs ≤ 22) :
    scale? n.toUInt64 k = some (Float.ofScientific n (k < 0) k.natAbs) ∧
      Binary64.isFinite (Float.ofScientific n (k < 0) k.natAbs) = true := by
  obtain ⟨hfinite, hvalue⟩ := value_toFloat hn
  obtain ⟨hfactor, hten⟩ := powerOfTen_spec hk
  have hscientific : Float.ofScientific n (k < 0) k.natAbs
      = if k < 0 then n.toUInt64.toFloat / powerOfTen k.natAbs
        else n.toUInt64.toFloat * powerOfTen k.natAbs := by
    unfold Float.ofScientific
    rw [dif_pos ⟨hn, hk⟩, powerOfTen_eq (Nat.lt_succ_of_le hk)]
    simp only [decide_eq_true_eq]
    rfl
  unfold scale?
  rw [hscientific, if_neg (by omega)]
  by_cases hneg : k < 0
  · have hpower : (-k).toNat = k.natAbs := by omega
    have hwhole : Binary64.value n.toUInt64.toFloat = 0
        ∨ 1 ≤ |Binary64.value n.toUInt64.toFloat| := by
      rw [hvalue, Nat.abs_cast, Nat.cast_eq_zero, Nat.one_le_cast]
      omega
    rw [if_pos hneg, if_neg (by omega), if_pos (by omega), hpower]
    exact ⟨rfl, (Binary64.div_near hfinite hfactor hwhole).1⟩
  · have hpower : k.toNat = k.natAbs := by omega
    have hproduct : Binary64.isFinite (n.toUInt64.toFloat * powerOfTen k.natAbs) = true := by
      refine (Binary64.mul_near hfinite hfactor ?_).1
      have hdigits : (n : ℚ) ≤ 2 ^ 53 := by exact_mod_cast hn.le
      calc |Binary64.value n.toUInt64.toFloat| * Binary64.value (powerOfTen k.natAbs)
          = n * 10 ^ k.natAbs := by rw [hvalue, hten, Nat.abs_cast]
        _ ≤ 2 ^ 53 * 10 ^ 22 := by gcongr; norm_num
        _ ≤ (2 ^ 53 - 1 / 2) * 2 ^ (75 : ℤ) := by norm_num
        _ < Binary64.overflow :=
          mul_lt_mul_of_pos_left (zpow_lt_zpow_right₀ one_lt_two (by norm_num)) (by norm_num)
    rw [if_neg hneg, if_pos (by omega), hpower, Option.filter_some, if_pos hproduct]
    exact ⟨rfl, hproduct⟩

/-! ## §3. Numbers. -/

/-- The number has at most 53 binary digits without its point, which is moved by at most 22
places. -/
def IsShort (p : Parts) : Prop :=
  natural (p.whole ++ p.fraction) < 2 ^ 53 ∧ (p.exponent - p.fraction.length).natAbs ≤ 22

theorem ofParts?_short {p : Parts} (h : IsShort p) :
    ofParts? p = some p.toFloat ∧ Binary64.isFinite p.toFloat = true := by
  obtain ⟨hdigits, hexponent⟩ := h
  have hall : natural (p.whole ++ p.fraction) < UInt64.size := hdigits.trans (by decide)
  have hwhole : extend 0 p.whole = (natural p.whole, 0) :=
    extend_natural [] ((natural_le_append _ p.fraction).trans_lt hall)
  obtain ⟨hscaled, hfinite⟩ := scale?_short hdigits hexponent
  unfold ofParts? Parts.toFloat
  simp only [hwhole, extend_natural _ hall, Nat.sub_zero, Nat.cast_zero, add_zero, hscaled]
  cases p.negative with
  | true => exact ⟨rfl, (Binary64.value_neg hfinite).1⟩
  | false => exact ⟨rfl, hfinite⟩

/-- A number is scaled from the parts that it is spelled with. -/
theorem scaled?_chars {s : Spelling} (h : s.IsProper) :
    scaled? (String.ofList s.chars) = ofParts? s.parts := by
  have hunsigned := Spelling.unsigned?_chars h
  obtain ⟨c, rest, hwhole, hc⟩ := h.exists_digit
  have hminus : c ≠ '-' := fun heq => by simp [heq] at hc
  unfold scaled?
  rw [String.toList_ofList, Spelling.chars]
  rw [hwhole, List.cons_append] at hunsigned ⊢
  cases hnegative : s.negative with
  | true =>
    rw [hnegative] at hunsigned
    simp [Spelling.sign, hunsigned]
  | false =>
    rw [hnegative] at hunsigned
    simp [Spelling.sign, hunsigned, hminus]

/-- **A number of few digits is read as the double nearest to it.** -/
theorem float?_standard_eq_nearest {s : Spelling} (h : s.IsProper) (hshort : IsShort s.parts) :
    standard.float? (String.ofList s.chars) = nearest.float? (String.ofList s.chars) := by
  obtain ⟨hparts, hfinite⟩ := ofParts?_short hshort
  show scaled? _ = (Numeral.float? _).filter Binary64.isFinite
  rw [scaled?_chars h, hparts, Spelling.float?_chars h, Option.filter_some, if_pos hfinite]

/-- With 56 binary digits, both roundings may go the same way. -/
example : standard.float? "51.248178375505404" = some 51.24817837550541 ∧
    nearest.float? "51.248178375505404" = some 51.248178375505404 := by decide +kernel

end SolidTree.JsonLibrary
