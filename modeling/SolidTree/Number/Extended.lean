/-
  SolidTree.Number.Extended
  ─────────────────────────
  **EXTENDED REALS AS A SCALAR.**

  The reals with both infinities, the kind of number on which a box around
  nothing has its corners where they belong and all else is exact.  Order,
  sums and products are those of the extended reals; of a sum of opposite
  infinities nothing should be made, and `Defined` says of which sums
  something may.  Roundings, cosines and sines are those of the reals where
  there is a real number; an infinity is rounded to itself.

  Nothing is computed with it, and the instance is open where boxes that grow
  are the subject.
-/
import Mathlib.Data.EReal.Inv
import SolidTree.Number.Real

namespace SolidTree

namespace ExtendedReals

/-- Neither of the two sums of opposite infinities. -/
def Defined (a b : EReal) : Prop := ¬ (a = ⊤ ∧ b = ⊥) ∧ ¬ (a = ⊥ ∧ b = ⊤)

/-- A function on reals, under which the infinities stay where they are. -/
noncomputable def lift (f : ℝ → ℝ) (a : EReal) : EReal :=
  if a = ⊤ ∨ a = ⊥ then a else (f a.toReal : ℝ)

open Classical in
noncomputable scoped instance : Scalar EReal where
  ofScientific m negative e := ((OfScientific.ofScientific m negative e : ℝ) : EReal)
  decideLt := inferInstance
  decideLe := inferInstance
  beq a b := decide (a = b)
  abs a := max a (-a)
  floor := lift fun x => ⌊x⌋
  round := lift fun x => Reals.nearest x
  remainder a b := a - lift (fun x => Reals.truncate x) (a / b) * b
  wholePart a := ⌊a.toReal⌋.toNat
  infinity := ⊤
  cosDegrees a := (Real.cos (a.toReal * (Real.pi / (180 : ℕ))) : ℝ)
  sinDegrees a := (Real.sin (a.toReal * (Real.pi / (180 : ℕ))) : ℝ)

end ExtendedReals

end SolidTree
