/-
  SolidTree.Proofs.Rotation.Merging
  ─────────────────────────────────
  **MERGED OPERATORS ARE COMPOSED OPERATORS.**

  Two translations merge into one by the sum of their offsets, and two
  rotations in the cases in which their angles can be added.  The angles are
  arbitrary, and what a rotation is does not matter: `Motions` asks only for
  rotations about each axis that add angles up and have a period of 360.

  Main results:
    * `merge_sound` — a merged operator is the outer one after the inner one,
      and merging fails exactly for operators of different kinds
-/
import Mathlib.Algebra.Group.End
import SolidTree.Proofs.Exact.Angle
import SolidTree.Proofs.Rotation.Turns
import SolidTree.Proofs.Space.Point
import SolidTree.Proofs.Tree.Kinds

namespace SolidTree

/-! ## §1. Motions. -/

/-- What operators do, as elements of a monoid: translations add up, and so do the
rotations about each axis, with a period of 360. -/
structure Motions (M : Type*) [Monoid M] extends Turns ℚ M where
  shift : Vec3 ℚ → M
  /-- All operators but translations and rotations. -/
  other : Operator ℚ → M
  shift_add : ∀ v w, shift (v + w) = shift v * shift w
  turn_periodic : ∀ axis, Function.Periodic (turn axis) 360

namespace Motions

/-- In a group `turn_zero` is no condition of its own. -/
def ofGroup {G : Type*} [Group G] (shift : Vec3 ℚ → G) (turn : Axis → ℚ → G)
    (other : Operator ℚ → G) (shift_add : ∀ v w, shift (v + w) = shift v * shift w)
    (turn_add : ∀ axis a b, turn axis (a + b) = turn axis a * turn axis b)
    (turn_periodic : ∀ axis, Function.Periodic (turn axis) 360) : Motions G where
  shift := shift
  turn := turn
  other := other
  shift_add := shift_add
  turn_zero axis := by
    have h := turn_add axis 0 0
    rw [add_zero] at h
    exact left_eq_mul.mp h
  turn_add := turn_add
  turn_periodic := turn_periodic

variable {M : Type*} [Monoid M] (S : Motions M)

/-- What an operator does. -/
def motion : Operator ℚ → M
  | .translate v => S.shift v
  | .rotate a => S.angles a
  | op => S.other op

/-- Reducing an angle does not change the rotation. -/
theorem turn_normalize (axis : Axis) (a : ℚ) :
    S.turn axis (Angle.normalize a) = S.turn axis a := by
  obtain ⟨-, -, k, hk⟩ := Angle.normalize_spec a
  rw [hk]
  exact (S.turn_periodic axis).sub_int_mul_eq k

theorem motion_ofAngles (a : Vec3 ℚ) : S.motion (.ofAngles a) = S.angles a := by
  show S.angles (a.map Angle.normalize) = S.angles a
  unfold Turns.angles Vec3.map
  rw [turn_normalize, turn_normalize, turn_normalize]

end Motions

/-! ## §2. When operators merge. -/

namespace Operator

variable {α : Type} [Scalar α]

/-- Two operators merge iff both are translations, or rotations that sum. -/
theorem merge_eq_some {outer inner folded : Operator α} :
    outer.merge inner = .ok (some folded) ↔
      (∃ v w, outer = .translate v ∧ inner = .translate w ∧ folded = .translate (v + w)) ∨
        (∃ a b, outer = .rotate a ∧ inner = .rotate b ∧ sumsWith a b = true ∧
          folded = .ofAngles (a + b)) := by
  constructor
  · intro h
    -- The cases are those of the definition; only two of them give an operator.
    unfold merge at h
    split at h
    next v w =>
      cases h
      exact .inl ⟨v, w, rfl, rfl, rfl⟩
    next a b =>
      by_cases hsums : sumsWith a b = true
      · rw [if_pos hsums] at h
        cases h
        exact .inr ⟨a, b, rfl, rfl, hsums, rfl⟩
      · rw [if_neg hsums] at h
        cases h
    next =>
      by_cases hkind : outer.sameKind inner = true
      · rw [if_pos hkind] at h
        cases h
      · rw [if_neg hkind] at h
        cases h
  · rintro (⟨v, w, rfl, rfl, rfl⟩ | ⟨a, b, rfl, rfl, hsums, rfl⟩)
    · rfl
    · show Except.ok (if sumsWith a b then _ else _) = _
      rw [if_pos hsums]

/-- Merging fails for operators of different kinds and for no others. -/
theorem merge_eq_error {outer inner : Operator α} {fault : Fault α} :
    outer.merge inner = .error fault ↔
      outer.ctorIdx ≠ inner.ctorIdx ∧
        fault = .invalidOperand (.kinds outer.name inner.name) := by
  -- Kinds are compared by the names of the calls, which tell all constructors apart.
  rw [ne_eq, ← sameKind_iff]
  unfold merge
  split
  next => simp [sameKind, name]
  next => simp [sameKind, name]
  next =>
    by_cases hkind : outer.sameKind inner = true
    · simp [hkind]
    · simp [hkind, eq_comm]

theorem sumsWith_iff (outer inner : Vec3 ℚ) :
    sumsWith outer inner = true ↔ Turns.Sums outer inner := by
  unfold sumsWith Turns.Sums
  simp only [Bool.or_eq_true, Bool.and_eq_true, beq_iff_eq]
  tauto

end Operator

/-! ## §3. What merged operators do. -/

theorem Motions.motion_merge {M : Type*} [Monoid M] (S : Motions M)
    {outer inner folded : Operator ℚ} (h : outer.merge inner = .ok (some folded)) :
    S.motion folded = S.motion outer * S.motion inner := by
  rcases Operator.merge_eq_some.mp h with
    ⟨v, w, rfl, rfl, rfl⟩ | ⟨a, b, rfl, rfl, hsums, rfl⟩
  · exact S.shift_add v w
  · rw [motion_ofAngles, S.angles_add ((Operator.sumsWith_iff a b).mp hsums)]
    rfl

/-- **Merging is sound.** Whatever motions translations and rotations are: a merged
operator is the outer one after the inner one. Merging fails iff the operators are of
different kinds, and it names the two kinds then. -/
theorem merge_sound {M : Type*} [Monoid M] (S : Motions M) (outer inner : Operator ℚ) :
    (∀ folded, outer.merge inner = .ok (some folded) →
      S.motion folded = S.motion outer * S.motion inner) ∧
    (∀ fault, outer.merge inner = .error fault ↔
      outer.ctorIdx ≠ inner.ctorIdx ∧
        fault = .invalidOperand (.kinds outer.name inner.name)) :=
  ⟨fun _ h => S.motion_merge h, fun _ => Operator.merge_eq_error⟩

/-! Rotations of space are motions; a translation adds its offset to a point. -/

/-- The rotation of space about an axis by an angle in degrees. -/
noncomputable def spaceTurn (axis : Axis) (degrees : ℚ) : Equiv.Perm Point where
  toFun := Point.rotateAbout axis degrees
  invFun := Point.rotateAbout axis (-degrees)
  left_inv p := by
    have h := congrFun (Point.rotateAbout_add axis (-degrees) degrees) p
    rw [neg_add_cancel, Point.rotateAbout_zero] at h
    exact h.symm
  right_inv p := by
    have h := congrFun (Point.rotateAbout_add axis degrees (-degrees)) p
    rw [add_neg_cancel, Point.rotateAbout_zero] at h
    exact h.symm

/-- The translation of space by a vector. -/
def spaceShift (v : Vec3 ℚ) : Equiv.Perm Point := Equiv.addRight fun axis => (v.get axis : ℝ)

/-- The motions of space, in which all other operators do nothing. -/
noncomputable def spaceMotions : Motions (Equiv.Perm Point) :=
  .ofGroup spaceShift spaceTurn (fun _ => 1)
    (fun v w => by
      ext p axis
      show p axis + ((v + w).get axis : ℝ) = p axis + (w.get axis : ℝ) + (v.get axis : ℝ)
      have h : (v + w).get axis = v.get axis + w.get axis := Vec3.get_zipWith _ v w axis
      rw [h]
      push_cast
      ring)
    (fun axis a b => by
      ext p row
      show Point.rotateAbout axis ((a + b : ℚ) : ℝ) p row = _
      rw [Rat.cast_add, Point.rotateAbout_add]
      rfl)
    (fun axis a => by
      ext p row
      show Point.rotateAbout axis ((a + 360 : ℚ) : ℝ) p row = Point.rotateAbout axis a p row
      rw [Rat.cast_add, Rat.cast_ofNat, Point.rotateAbout_periodic axis])

theorem merge_sound_space :
    Operator.merge (.rotate ⟨0, 0, 270⟩) (.rotate ⟨90, 0, 180⟩)
        = .ok (some (.rotate (⟨90, 0, 90⟩ : Vec3 ℚ))) ∧
      spaceMotions.motion (.rotate ⟨90, 0, 90⟩)
        = spaceMotions.motion (.rotate ⟨0, 0, 270⟩)
          * spaceMotions.motion (.rotate ⟨90, 0, 180⟩) := by
  have h : Operator.merge (.rotate ⟨0, 0, 270⟩) (.rotate ⟨90, 0, 180⟩)
      = .ok (some (.rotate (⟨90, 0, 90⟩ : Vec3 ℚ))) := by
    decide +kernel
  exact ⟨h, (merge_sound spaceMotions _ _).1 _ h⟩

end SolidTree
