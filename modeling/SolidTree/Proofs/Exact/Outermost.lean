/-
  SolidTree.Proofs.Exact.Outermost
  ────────────────────────────────
  **THE OUTERMOST OF SOME RATIONALS.**

  Unions, intersections and polygons read the outermost one of several
  coordinates.  Without values that are no numbers this is the least or the
  greatest one, and more than the following is never needed of it:

      s.Within v x          — `x` is not beyond `v` on the side `s`
      s.IsOutermost xs v    — `v` is one of `xs`, and none of them is beyond it
-/
import Mathlib.Algebra.Order.Ring.Rat
import Mathlib.Data.Rat.Cast.Order
import Mathlib.Data.Real.Basic
import Mathlib.Tactic.Linarith
import SolidTree.Number.Rational
import SolidTree.Proofs.Outcome
import SolidTree.Tree.Measure
import SolidTree.Tree.Primitive

namespace SolidTree

/-! ## §1. Sides. -/

namespace Side

/-- The number `x` is not beyond `v` on this side. -/
def Within {β : Type*} [LE β] (s : Side) (v x : β) : Prop :=
  match s with
  | .min => v ≤ x
  | .max => x ≤ v

theorem within_refl {β : Type*} [Preorder β] (s : Side) (v : β) : s.Within v v := by
  cases s <;> exact le_refl v

theorem Within.trans {β : Type*} [Preorder β] {s : Side} {u v x : β} (h : s.Within u v)
    (h' : s.Within v x) : s.Within u x := by
  cases s with
  | min => exact le_trans h h'
  | max => exact le_trans h' h

/-- Two numbers that are not beyond each other are equal. -/
theorem Within.antisymm {β : Type*} [PartialOrder β] {s : Side} {v x : β} (h : s.Within v x)
    (h' : s.Within x v) : v = x := by
  cases s with
  | min => exact le_antisymm h h'
  | max => exact le_antisymm h' h

section Field

variable {β : Type*} [Field β] [LinearOrder β] [IsStrictOrderedRing β] {s : Side} {v w x y f : β}

theorem Within.add (h : s.Within v x) (h' : s.Within w y) : s.Within (v + w) (x + y) := by
  cases s <;> exact add_le_add h h'

/-- Negation takes one side to the other. -/
theorem Within.neg (h : s.opposite.Within v x) : s.Within (-v) (-x) := by
  cases s <;> exact neg_le_neg h

theorem Within.mul_nonneg (h : s.Within v x) (hf : 0 ≤ f) : s.Within (v * f) (x * f) := by
  cases s <;> exact mul_le_mul_of_nonneg_right h hf

/-- A negative factor takes one side to the other. -/
theorem Within.mul_nonpos (h : s.opposite.Within v x) (hf : f ≤ 0) : s.Within (v * f) (x * f) := by
  cases s <;> exact mul_le_mul_of_nonpos_right h hf

end Field

theorem within_cast {s : Side} {v x : ℚ} : s.Within (v : ℝ) (x : ℝ) ↔ s.Within v x := by
  cases s <;> exact Rat.cast_le

@[simp] theorem opposite_opposite (s : Side) : s.opposite.opposite = s := by
  cases s <;> rfl

/-- One of the numbers, and none of them is beyond it. -/
def IsOutermost (s : Side) (xs : List ℚ) (v : ℚ) : Prop := v ∈ xs ∧ ∀ x ∈ xs, s.Within v x

end Side

/-! ## §2. Folds. -/

namespace Scalar

section Extremes

variable {α : Type} [Scalar α]

/-- The outermost of no numbers on a side. -/
def limit : Side → α
  | .min => infinity
  | .max => -infinity

theorem extreme_eq (s : Side) (xs : List α) :
    Primitive.extreme s xs = match xs.filter isNumber with
      | [] => limit s
      | x :: rest => rest.foldl (Extents.outer s) x := by
  cases s <;> rfl

end Extremes

/-- The order is total, and every value is a number. -/
class Ordered (α : Type) [Scalar α] : Prop where
  le_refl (a : α) : a ≤ a
  le_trans (a b c : α) : a ≤ b → b ≤ c → a ≤ c
  le_total (a b : α) : a ≤ b ∨ b ≤ a
  isNumber (a : α) : isNumber a = true

variable {α : Type} [Scalar α] [Ordered α]

/-- The outer one of two values is one of them, and neither is beyond it. -/
theorem outer_choice (s : Side) (a b : α) :
    (Extents.outer s a b = a ∨ Extents.outer s a b = b) ∧
      s.Within (Extents.outer s a b) a ∧ s.Within (Extents.outer s a b) b := by
  cases s with
  | min =>
    show (lesser a b = a ∨ lesser a b = b) ∧ lesser a b ≤ a ∧ lesser a b ≤ b
    unfold lesser
    by_cases h : a ≤ b
    · rw [if_pos h]
      exact ⟨.inl rfl, Ordered.le_refl a, h⟩
    · rw [if_neg h, if_pos (Ordered.isNumber b)]
      exact ⟨.inr rfl, (Ordered.le_total a b).resolve_left h, Ordered.le_refl b⟩
  | max =>
    show (greater a b = a ∨ greater a b = b) ∧ a ≤ greater a b ∧ b ≤ greater a b
    unfold greater
    by_cases h : b ≤ a
    · rw [if_pos h]
      exact ⟨.inl rfl, Ordered.le_refl a, h⟩
    · rw [if_neg h, if_pos (Ordered.isNumber b)]
      exact ⟨.inr rfl, (Ordered.le_total b a).resolve_left h, Ordered.le_refl b⟩

theorem foldl_outer (s : Side) (a : α) (rest : List α) :
    rest.foldl (Extents.outer s) a ∈ a :: rest ∧
      ∀ x ∈ a :: rest, s.Within (rest.foldl (Extents.outer s) a) x := by
  -- For every start: the next one is the outer one of the start and the first value.
  induction rest generalizing a with
  | nil =>
    refine ⟨List.mem_singleton_self a, fun x hx => ?_⟩
    rw [List.mem_singleton.mp hx]
    cases s <;> exact Ordered.le_refl a
  | cons b rest ih =>
    obtain ⟨hmem, hwithin⟩ := ih (Extents.outer s a b)
    obtain ⟨hone, ha, hb⟩ := outer_choice s a b
    have htrans {x y z : α} (h : s.Within x y) (h' : s.Within y z) : s.Within x z := by
      cases s with
      | min => exact Ordered.le_trans _ _ _ h h'
      | max => exact Ordered.le_trans _ _ _ h' h
    rw [List.foldl_cons]
    have hhead := hwithin _ List.mem_cons_self
    constructor
    · rcases List.mem_cons.mp hmem with h | h
      · rw [h]
        rcases hone with hone | hone <;> rw [hone] <;> simp
      · exact List.mem_cons_of_mem _ (List.mem_cons_of_mem _ h)
    · intro x hx
      rcases List.mem_cons.mp hx with rfl | hx
      · exact htrans hhead ha
      · rcases List.mem_cons.mp hx with rfl | hx
        · exact htrans hhead hb
        · exact hwithin x (List.mem_cons_of_mem _ hx)

theorem extreme_cons (s : Side) (a : α) (rest : List α) :
    Primitive.extreme s (a :: rest) = rest.foldl (Extents.outer s) a := by
  have hnumbers : (a :: rest).filter isNumber = a :: rest :=
    List.filter_eq_self.mpr fun x _ => Ordered.isNumber x
  rw [extreme_eq, hnumbers]

/-- The outermost of some values is one of them, and none is beyond it. -/
theorem extreme_spec (s : Side) {xs : List α} (hne : xs ≠ []) :
    Primitive.extreme s xs ∈ xs ∧ ∀ x ∈ xs, s.Within (Primitive.extreme s xs) x := by
  obtain ⟨a, rest, rfl⟩ := List.exists_cons_of_ne_nil hne
  rw [extreme_cons]
  exact foldl_outer s a rest

end Scalar

namespace Rational

theorem greater_eq_max (a b : ℚ) : Scalar.greater a b = max a b := by
  unfold Scalar.greater Scalar.isNumber
  by_cases h : b ≤ a
  · rw [if_pos h, max_eq_left h]
  · rw [if_neg h, if_pos BEq.rfl, max_eq_right (le_of_not_ge h)]

theorem lesser_eq_min (a b : ℚ) : Scalar.lesser a b = min a b := by
  unfold Scalar.lesser Scalar.isNumber
  by_cases h : a ≤ b
  · rw [if_pos h, min_eq_left h]
  · rw [if_neg h, if_pos BEq.rfl, min_eq_right (le_of_not_ge h)]

instance : Scalar.Ordered ℚ where
  le_refl := le_refl
  le_trans _ _ _ := le_trans
  le_total := le_total
  isNumber _ := BEq.rfl

/-- The outer one of two numbers is one of them, and neither is beyond it. -/
theorem outer_spec (s : Side) (a b : ℚ) :
    (Extents.outer s a b = a ∨ Extents.outer s a b = b) ∧
      s.Within (Extents.outer s a b) a ∧ s.Within (Extents.outer s a b) b :=
  Scalar.outer_choice s a b

/-- The outermost of some rationals, which all are numbers. -/
theorem isOutermost_extreme (s : Side) {xs : List ℚ} (hne : xs ≠ []) :
    s.IsOutermost xs (Primitive.extreme s xs) :=
  Scalar.extreme_spec s hne

end Rational

/-! ## §3. Readings. -/

namespace Extents

section Readings

variable {α : Type} [Scalar α]

/-- The outermost of some coordinates, the origin for none. -/
def outermostOf (s : Side) : List α → α
  | [] => 0
  | a :: rest => rest.foldl (outer s) a

theorem outermost_eq (s : Side) (readings : List (Reading α)) :
    outermost s readings
      = (readings.mapM id : Except (Fault α) (List α)).map (outermostOf s) := by
  unfold outermost
  rcases (readings.mapM id : Except (Fault α) (List α)) with _ | _ | _ <;> rfl

/-- Innermost on a side is outermost on the other. -/
theorem innermost_eq (s : Side) (readings : List (Reading α)) :
    innermost s readings
      = (readings.mapM id : Except (Fault α) (List α)).map (Primitive.extreme s.opposite) := by
  unfold innermost
  cases s <;> rfl

end Readings

/-- A known outermost reading is one of the readings, and all of them are known and not
beyond it. -/
theorem outermost_spec {α : Type} [Scalar α] [Scalar.Ordered α] {s : Side}
    {readings : List (Reading α)} (hne : readings ≠ []) {v : α}
    (h : outermost s readings = .ok v) :
    .ok v ∈ readings ∧ ∀ r ∈ readings, ∃ w, r = .ok w ∧ s.Within v w := by
  rw [outermost_eq] at h
  obtain ⟨vs, hvs, rfl⟩ := Outcome.map_eq_ok.mp h
  obtain rfl := Outcome.mapM_id_eq_ok.mp hvs
  cases vs with
  | nil => exact absurd rfl hne
  | cons a rest =>
    obtain ⟨hmem, hwithin⟩ := Scalar.foldl_outer s a rest
    refine ⟨List.mem_map_of_mem hmem, fun r hr => ?_⟩
    obtain ⟨w, hw, rfl⟩ := List.mem_map.mp hr
    exact ⟨w, rfl, hwithin w hw⟩

/-- Readings that are all known have an outermost one. -/
theorem exists_outermost {α : Type} [Scalar α] {s : Side} {readings : List (Reading α)}
    (h : ∀ r ∈ readings, ∃ v, r = .ok v) : ∃ v, outermost s readings = .ok v := by
  obtain ⟨vs, rfl⟩ : ∃ vs : List α, readings = vs.map .ok := by
    choose! f hf using h
    refine ⟨readings.map f, ?_⟩
    rw [List.map_map]
    exact (List.map_id readings).symm.trans (List.map_congr_left hf)
  rw [outermost_eq, Outcome.mapM_id_eq_ok.mpr rfl]
  exact ⟨outermostOf s vs, rfl⟩

/-- A known innermost reading is one of the readings, and all of them are known and not
beyond it on the other side. -/
theorem innermost_spec {s : Side} {readings : List (Reading ℚ)} (hne : readings ≠ []) {v : ℚ}
    (h : innermost s readings = .ok v) :
    .ok v ∈ readings ∧ ∀ r ∈ readings, ∃ w, r = .ok w ∧ s.opposite.Within v w := by
  rw [innermost_eq] at h
  obtain ⟨vs, hvs, rfl⟩ := Outcome.map_eq_ok.mp h
  obtain rfl := Outcome.mapM_id_eq_ok.mp hvs
  have hvs' : vs ≠ [] := by
    rintro rfl
    exact hne rfl
  obtain ⟨hmem, hwithin⟩ := Rational.isOutermost_extreme s.opposite hvs'
  refine ⟨List.mem_map_of_mem hmem, fun r hr => ?_⟩
  obtain ⟨w, hw, rfl⟩ := List.mem_map.mp hr
  exact ⟨w, rfl, hwithin w hw⟩

end Extents

end SolidTree
