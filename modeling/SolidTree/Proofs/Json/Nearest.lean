/-
  SolidTree.Proofs.Json.Nearest
  ─────────────────────────────
  **A LAWFUL LIBRARY FOR JSON.**

  The standard library scales the digits of a number once, and so some doubles
  of many digits come back as one of their neighbours.  The laws hold if each
  number is read as the double nearest to it:

      JsonLibrary.nearest          — the library
      JsonLibrary.lawful_nearest   — its laws
-/
import SolidTree.Json.Standard
import SolidTree.Proofs.Json.Laws
import SolidTree.Proofs.Json.Text

namespace SolidTree

/-! ## §1. Numbers as they are printed. -/

namespace Json

theorem isProper_ofFloat (x : Float) : (ofFloat x).IsProper := by
  unfold ofFloat
  split_ifs with h
  · obtain ⟨s, hproper, hchars, -⟩ := Spelling.exists_spelling NumberStyle.lossless_isFaithful h
    rw [NumberStyle.text, ← hchars]
    exact .number hproper
  · exact .null

theorem isProper_ofNat (n : ℕ) : (ofNat n).IsProper := by
  obtain ⟨s, hproper, hchars⟩ := Spelling.exists_natural n
  rw [ofNat, ← hchars]
  exact .number hproper

end Json

/-! ## §2. The library. -/

namespace JsonLibrary

/-- The standard library, but for numbers that are read as the nearest double. -/
@[reducible] def nearest : JsonLibrary :=
  { standard with
    float? := fun written => (Numeral.float? written).filter Binary64.isFinite }

attribute [local instance] nearest

theorem isProper_of_isPrinted {j : Json} (h : j.IsPrinted) : j.IsProper := by
  induction h with
  | null => exact .null
  | boolean b => exact .boolean b
  | double x => exact Json.isProper_ofFloat x
  | natural n => exact Json.isProper_ofNat n
  | text s => exact .text s
  | array _ ih => exact .array ih
  | object hnames _ ih => exact .object hnames ih

/-- **The library keeps what it prints.** -/
theorem lawful_nearest : LawfulJsonLibrary where
  finite_reads_back {x} h := by
    refine ⟨NumberStyle.lossless.text x, if_pos h, ?_⟩
    show (Numeral.float? _).filter Binary64.isFinite = some x
    rw [Numeral.float?_text h, Option.filter_some, if_pos h]
  notFinite_null {x} h := by
    show Json.ofFloat x = .null
    rw [Json.ofFloat, h]
    rfl
  outOfRange_refused {written x} h := (Option.filter_eq_some_iff.mp h).2
  natural_reads_back {n bound} h := ⟨_, rfl, Numeral.natural?_toDigits h⟩
  deep_refused := rfl
  compact_reads_back h := Json.parse?_compactText (isProper_of_isPrinted h)
  pretty_reads_back h := Json.parse?_prettyText (isProper_of_isPrinted h)

end JsonLibrary

end SolidTree
