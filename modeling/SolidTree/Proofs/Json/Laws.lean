/-
  SolidTree.Proofs.Json.Laws
  ──────────────────────────
  **WHAT IS ASSUMED OF THE LIBRARY FOR JSON.**

  Whether a tree is read back depends on the library in a few ways only:

      finite_reads_back, notFinite_null, outOfRange_refused  — doubles
      natural_reads_back                                     — natural numbers
      deep_refused                                           — 128 levels
      compact_reads_back, pretty_reads_back                  — texts

  A library whose doubles come back with another last digit is not lawful.
-/
import SolidTree.Json.Library
import SolidTree.Number.Binary64

namespace SolidTree

/-- The numbers of a value are printed doubles and natural numbers, and no text has half of
a surrogate pair. -/
inductive Json.IsPrinted [JsonLibrary] : Json → Prop where
  | null : IsPrinted .null
  | boolean (b : Bool) : IsPrinted (.boolean b)
  | double (x : Float) : IsPrinted (JsonLibrary.ofFloat x)
  | natural (n : Nat) : IsPrinted (JsonLibrary.ofNat n)
  | text (s : String) : IsPrinted (.text (some s))
  | array {items : List Json} (h : ∀ j ∈ items, IsPrinted j) : IsPrinted (.array items)
  | object {fields : List (Option String × Json)} (hnames : ∀ f ∈ fields, f.1.isSome = true)
    (h : ∀ f ∈ fields, IsPrinted f.2) : IsPrinted (.object fields)

open JsonLibrary in
/-- The laws of a library that keeps what it prints. -/
class LawfulJsonLibrary [JsonLibrary] : Prop where
  /-- A finite double is printed as a number that is read as the same double. -/
  finite_reads_back {x : Float} (h : Binary64.isFinite x = true) :
    ∃ written, ofFloat x = .number written ∧ float? written = some x
  /-- A double that is not finite is printed as null. -/
  notFinite_null {x : Float} (h : Binary64.isFinite x = false) : ofFloat x = .null
  /-- A number that is out of the range of doubles is refused. -/
  outOfRange_refused {written : String} {x : Float} (h : float? written = some x) :
    Binary64.isFinite x = true
  /-- A natural number is printed as a number that is read as the same one, if it may be
  that large. -/
  natural_reads_back {n bound : Nat} (h : n < bound) :
    ∃ written, ofNat n = .number written ∧ natural? bound written = some n
  /-- 127 levels may be entered; the last one of 128 is refused. -/
  deep_refused : levels = 127
  /-- The compact text of a value spells the value. -/
  compact_reads_back {j : Json} (h : j.IsPrinted) : parse? (compactText j) = some j
  /-- The pretty text of a value spells the value. -/
  pretty_reads_back {j : Json} (h : j.IsPrinted) : parse? (prettyText j) = some j

end SolidTree
