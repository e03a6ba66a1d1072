/-
  SolidTree.Proofs.Rotation.Turns
  ───────────────────────────────
  **ROTATIONS BY THREE ANGLES.**

  A rotation by three angles is `Rz * Ry * Rx`, and rotations about different
  axes do not commute.  Two of them make one by the sum of their angles in
  the three cases in which whatever would have to change places is zero:

      outer about Z           Rz * (Rz' * Ry' * Rx')
      outer about Y, inner    Ry * (Ry' * Rx')
        not about Z
      both about X            Rx * Rx'

  `Turns` says no more of the rotations about each axis than that they are a
  family which adds angles up, so that the argument is made once for angles
  in degrees and for numbers of quarter turns.
-/
import Mathlib.Algebra.Group.Defs
import Mathlib.Algebra.Group.Basic
import SolidTree.Geometry.Vector

namespace SolidTree

/-- The rotations about each axis, as elements of a monoid that add angles up. -/
structure Turns (A M : Type*) [AddMonoid A] [Monoid M] where
  turn : Axis → A → M
  turn_zero : ∀ axis, turn axis 0 = 1
  turn_add : ∀ axis a b, turn axis (a + b) = turn axis a * turn axis b

namespace Turns

/-- The angles of the outer rotation can be added to those of the inner one. -/
def Sums {A : Type} [Zero A] (outer inner : Vec3 A) : Prop :=
  (outer.x = 0 ∧ outer.y = 0) ∨ (inner.z = 0 ∧ outer.x = 0 ∧ outer.z = 0) ∨
    (inner.y = 0 ∧ inner.z = 0 ∧ outer.y = 0 ∧ outer.z = 0)

variable {A : Type} {M : Type*} [AddMonoid A] [Monoid M] (T : Turns A M)

/-- The rotation by three angles: about X, then about Y, then about Z. -/
def angles (a : Vec3 A) : M := T.turn .z a.z * T.turn .y a.y * T.turn .x a.x

/-- Where angles can be added, their sum is the outer rotation after the inner one. -/
theorem angles_add {outer inner : Vec3 A} (h : Sums outer inner) :
    T.angles (outer + inner) = T.angles outer * T.angles inner := by
  obtain ⟨ox, oy, oz⟩ := outer
  obtain ⟨ix, iy, iz⟩ := inner
  show T.turn .z (oz + iz) * T.turn .y (oy + iy) * T.turn .x (ox + ix)
    = T.turn .z oz * T.turn .y oy * T.turn .x ox * (T.turn .z iz * T.turn .y iy * T.turn .x ix)
  rw [T.turn_add, T.turn_add, T.turn_add]
  rcases h with ⟨hx, hy⟩ | ⟨hz, hx, hz'⟩ | ⟨hy, hz, hy', hz'⟩
  · -- About Z: nothing has to change places.
    obtain rfl : ox = 0 := hx
    obtain rfl : oy = 0 := hy
    simp only [T.turn_zero, one_mul, mul_one, mul_assoc]
  · -- About Y: the inner rotation has no turn about Z to pass.
    obtain rfl : iz = 0 := hz
    obtain rfl : ox = 0 := hx
    obtain rfl : oz = 0 := hz'
    simp only [T.turn_zero, one_mul, mul_one, mul_assoc]
  · -- About X: the inner rotation has no turn about Y or Z to pass.
    obtain rfl : iy = 0 := hy
    obtain rfl : iz = 0 := hz
    obtain rfl : oy = 0 := hy'
    obtain rfl : oz = 0 := hz'
    simp only [T.turn_zero, one_mul]

end Turns

end SolidTree
