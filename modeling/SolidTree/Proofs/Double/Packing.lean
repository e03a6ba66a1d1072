/-
  SolidTree.Proofs.Double.Packing
  ───────────────────────────────
  **DOUBLES AND THEIR BITS.**

  A finite double is a sign with a canonical mantissa and exponent, and no
  two doubles share those:

      Holds        — the bits that hold a mantissa and an exponent
      unpack_pack  — a canonical mantissa and exponent are some double's
      pack_unpack  — and only that double's
-/
import SolidTree.Proofs.Double.Rounding

namespace SolidTree.Binary64

open Float.Model
open Float.Model.UnpackedFloat

/-! ## §1. The three fields. -/

theorem toNat_append_one (M : BitVec 52) : (1#1 ++ M).toNat = 2 ^ 52 + M.toNat := by
  rw [BitVec.toNat_append, ← Nat.shiftLeft_add_eq_or_of_lt M.isLt]
  simp [Nat.shiftLeft_eq]

theorem toNat_neg_one : (-1#11).toNat = 2047 := rfl

/-- The fields of a finite double: the first binary digit is not kept, unless the exponent
is the least one and the digit is zero. -/
inductive Holds : BitVec 11 → BitVec 52 → ℕ → ℤ → Prop where
  | normal {E : BitVec 11} (M : BitVec 52) (hzero : E ≠ 0#11) (hones : E ≠ -1#11) :
    Holds E M (2 ^ 52 + M.toNat) (E.toNat - 1075)
  | subnormal {M : BitVec 52} (h : M ≠ 0#52) : Holds 0#11 M M.toNat (-1074)

namespace Holds

variable {E : BitVec 11} {M : BitVec 52} {m : ℕ} {e : ℤ}

theorem isCanonical (h : Holds E M m e) : IsCanonical m e := by
  have hM := M.isLt
  cases h with
  | normal _ hzero hones =>
    have hE := E.isLt
    have hlow : E.toNat ≠ 0 := fun h => hzero (BitVec.eq_of_toNat_eq h)
    have hhigh : E.toNat ≠ 2047 := fun h => hones (BitVec.eq_of_toNat_eq h)
    exact ⟨by omega, by omega, by omega, by omega, .inl (by omega)⟩
  | subnormal h =>
    have hpos : M.toNat ≠ 0 := fun hzero => h (BitVec.eq_of_toNat_eq hzero)
    exact ⟨by omega, by omega, by omega, by omega, .inr rfl⟩

theorem pack (h : Holds E M m e) (s : Sign) (hpos : 0 < m) :
    UnpackedFloat.pack .binary64 (.finite s m e hpos) = packComponents .binary64 s E M := by
  have hM := M.isLt
  have hbias : Format.binary64.exponentBias = 1023 := rfl
  have hbits : Format.binary64.mantissaBits = 53 := rfl
  cases h with
  | normal _ hzero hones =>
    have hE := E.isLt
    have hhigh : E.toNat ≠ 2047 := fun h => hones (BitVec.eq_of_toNat_eq h)
    have hlog : (2 ^ 52 + M.toNat).log2 = 52 :=
      (Nat.log2_eq_iff (by omega)).mpr ⟨by omega, by omega⟩
    have hbiased : ((E.toNat : ℤ) - 1075 + (1023 : ℕ) + (52 : ℕ)).toNat = E.toNat := by omega
    have hmantissa : BitVec.ofNat 52 (2 ^ 52 + M.toNat) = M := by
      apply BitVec.eq_of_toNat_eq
      rw [BitVec.toNat_ofNat, Nat.add_mod_left, Nat.mod_eq_of_lt hM]
    simp only [UnpackedFloat.pack, hlog, hbias, hbits, hbiased]
    rw [if_neg (by omega), if_pos trivial, hmantissa, BitVec.ofNat_toNat, BitVec.setWidth_eq]
  | subnormal h =>
    have hlog : M.toNat.log2 < 52 := (Nat.log2_lt hpos.ne').mpr hM
    simp only [UnpackedFloat.pack, hbias, hbits]
    rw [if_neg (by omega), if_neg (by omega), BitVec.ofNat_toNat, BitVec.setWidth_eq]

theorem unpack (h : Holds E M m e) (s : Sign) (hpos : 0 < m) :
    UnpackedFloat.unpack .binary64 (packComponents .binary64 s E M) = .finite s m e hpos := by
  have hbias : Format.binary64.exponentBias = 1023 := rfl
  simp only [UnpackedFloat.unpack, unpackMantissa_packComponents, unpackExponent_packComponents,
    unpackSign_packComponents, Sign.ofBitVec_toBitVec, hbias]
  cases h with
  | normal _ hzero hones =>
    rw [if_neg hones, if_neg hzero]
    simp only [toNat_append_one]
    congr 1
  | subnormal h =>
    rw [if_neg (by decide), if_pos rfl, dif_neg h]
    rfl

end Holds

/-- Every canonical mantissa and exponent are held by some bits. -/
theorem IsCanonical.exists_holds {m : ℕ} {e : ℤ} (h : IsCanonical m e) : ∃ E M, Holds E M m e := by
  obtain ⟨hpos, hlt, hleast, hgreatest, hfull⟩ := h
  by_cases hm : 2 ^ 52 ≤ m
  · have hE : (BitVec.ofNat 11 (e + 1075).toNat).toNat = (e + 1075).toNat := by
      rw [BitVec.toNat_ofNat, Nat.mod_eq_of_lt (by omega)]
    have hM : (BitVec.ofNat 52 (m - 2 ^ 52)).toNat = m - 2 ^ 52 := by
      rw [BitVec.toNat_ofNat, Nat.mod_eq_of_lt (by omega)]
    have hzero : BitVec.ofNat 11 (e + 1075).toNat ≠ 0#11 := fun h => by
      have := hE.symm.trans (congrArg BitVec.toNat h)
      rw [BitVec.toNat_zero] at this
      omega
    have hones : BitVec.ofNat 11 (e + 1075).toNat ≠ -1#11 := fun h => by
      have := hE.symm.trans (congrArg BitVec.toNat h)
      rw [toNat_neg_one] at this
      omega
    have hheld := Holds.normal (BitVec.ofNat 52 (m - 2 ^ 52)) hzero hones
    have hm' : 2 ^ 52 + (m - 2 ^ 52) = m := by omega
    have he' : ((e + 1075).toNat : ℤ) - 1075 = e := by omega
    rw [hE, hM, hm', he'] at hheld
    exact ⟨_, _, hheld⟩
  · have hM : (BitVec.ofNat 52 m).toNat = m := by
      rw [BitVec.toNat_ofNat, Nat.mod_eq_of_lt (by omega)]
    have hzero : BitVec.ofNat 52 m ≠ 0#52 := fun h =>
      hpos.ne' (hM.symm.trans (congrArg BitVec.toNat h))
    have hheld := Holds.subnormal hzero
    rw [hM, ← hfull.resolve_left hm] at hheld
    exact ⟨_, _, hheld⟩

/-- A finite double has the mantissa and the exponent that its bits hold. -/
theorem holds_of_unpack {b : BitVec Format.binary64.numBits} {s : Sign} {m : ℕ} {e : ℤ}
    {hpos : 0 < m} (h : UnpackedFloat.unpack .binary64 b = .finite s m e hpos) :
    Holds (unpackExponent b) (unpackMantissa b) m e := by
  have hbias : Format.binary64.exponentBias = 1023 := rfl
  simp only [UnpackedFloat.unpack, hbias] at h
  split_ifs at h with hones hM hE hM
  · obtain ⟨-, rfl, rfl⟩ := UnpackedFloat.finite.inj h
    rw [hE]
    exact .subnormal hM
  · obtain ⟨-, hm, rfl⟩ := UnpackedFloat.finite.inj h
    rw [toNat_append_one] at hm
    subst hm
    exact .normal _ hE hones

/-! ## §2. Packing. -/

/-- What a double is unpacked to. -/
theorem isCanonical_of_unpack {x : Float.Model} {s : Sign} {m : ℕ} {e : ℤ} {hpos : 0 < m}
    (h : x.unpack = .finite s m e hpos) : IsCanonical m e :=
  (holds_of_unpack h).isCanonical

/-- No two doubles are unpacked to the same. -/
theorem pack_unpack (x : Float.Model) : Float.Model.pack x.unpack = x := by
  obtain ⟨bits, hvalid⟩ := x
  simp only [Float.Model.pack, Float.Model.unpack, pack_unpack_of_valid hvalid]

/-- A canonical mantissa and exponent make a double. -/
theorem unpack_pack {m : ℕ} {e : ℤ} (h : IsCanonical m e) (s : Sign) :
    (Float.Model.pack (.finite s m e h.pos)).unpack = .finite s m e h.pos := by
  obtain ⟨E, M, hheld⟩ := h.exists_holds
  simp only [Float.Model.unpack, Float.Model.pack, hheld.pack s h.pos]
  exact hheld.unpack s h.pos

end SolidTree.Binary64
