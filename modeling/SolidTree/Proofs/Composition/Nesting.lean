/-
  SolidTree.Proofs.Composition.Nesting
  ────────────────────────────────────
  **OPERATIONS WITHIN THEMSELVES.**

  An operand that is itself a composite by the same operation can be replaced
  by its own operands, if it has any: what is read on each edge and which
  points there are stay the same.  The readings are made by folds, and a fold
  can be stopped after some operands and taken up again from its result:

      union         — goes on from the outermost reading so far
      difference    — reads the first operand of all
      intersection  — goes on from the innermost reading so far

  An innermost reading may be that of no number at all.  It is a limit then,
  and the fold goes on only if a limit is a number that no other one is
  beyond.  `Limited` asks for that, where there is something that is no
  number.  Doubles are limited by their infinities.

  Main results:
    * `Extents.compose_nested` — the readings of nested operations
    * `SetOperation.act_nested` — the points of nested operations
-/
import SolidTree.Proofs.Double.Packing
import SolidTree.Proofs.Exact.Outermost
import SolidTree.Proofs.Meaning.Calls
import SolidTree.Proofs.Tree.Readings

namespace SolidTree

/-! ## §1. Limits. -/

namespace Scalar

variable {α : Type} [Scalar α]

/-- Every value is a number, or the limit of a side is one and every number is as far out. -/
class Limited (α : Type) [Scalar α] : Prop where
  limited (s : Side) : (∀ a : α, isNumber a = true) ∨
    isNumber (limit s : α) = true ∧
      ∀ a : α, isNumber a = true → Extents.outer s (limit s) a = a

instance [Ordered α] : Limited α := ⟨fun _ => .inl Ordered.isNumber⟩

theorem isNumber_outer (s : Side) {a b : α} (ha : isNumber a = true) (hb : isNumber b = true) :
    isNumber (Extents.outer s a b) = true := by
  cases s with
  | min =>
    show isNumber (lesser a b) = true
    unfold lesser
    split <;> simp [ha, hb]
  | max =>
    show isNumber (greater a b) = true
    unfold greater
    split <;> simp [ha, hb]

theorem isNumber_foldl (s : Side) {a : α} {rest : List α} (ha : isNumber a = true)
    (hrest : ∀ b ∈ rest, isNumber b = true) :
    isNumber (rest.foldl (Extents.outer s) a) = true := by
  induction rest generalizing a with
  | nil => exact ha
  | cons b rest ih =>
    obtain ⟨hb, hrest⟩ := List.forall_mem_cons.mp hrest
    exact ih (isNumber_outer s ha hb) hrest

/-- **The outermost number of some values is enough of them.** -/
theorem extreme_nested [Limited α] (s : Side) {xs : List α} (hne : xs ≠ []) (ys : List α) :
    Primitive.extreme s (Primitive.extreme s xs :: ys) = Primitive.extreme s (xs ++ ys) := by
  rw [extreme_eq s xs, extreme_eq s (xs ++ ys), List.filter_append]
  cases hnumbers : xs.filter isNumber with
  | nil =>
    -- There are values, but they are no numbers.
    obtain ⟨x, hx⟩ := List.exists_mem_of_ne_nil xs hne
    have hnone : isNumber x ≠ true := List.filter_eq_nil_iff.mp hnumbers x hx
    obtain ⟨hlimit, hneutral⟩ := (Limited.limited s).resolve_left fun hall => hnone (hall x)
    rw [extreme_eq, List.filter_cons_of_pos hlimit, List.nil_append]
    cases hmore : ys.filter isNumber with
    | nil => rfl
    | cons y rest =>
      have hy : isNumber y = true := by
        have hmem : y ∈ ys.filter isNumber := hmore ▸ List.mem_cons_self
        exact (List.mem_filter.mp hmem).2
      show rest.foldl (Extents.outer s) (Extents.outer s (limit s) y) = _
      rw [hneutral y hy]
  | cons x rest =>
    have hall : ∀ b ∈ x :: rest, isNumber b = true := by
      intro b hb
      rw [← hnumbers] at hb
      exact (List.mem_filter.mp hb).2
    obtain ⟨hx, hrest⟩ := List.forall_mem_cons.mp hall
    rw [extreme_eq, List.filter_cons_of_pos (isNumber_foldl s hx hrest)]
    exact List.foldl_append.symm

end Scalar

/-! ## §2. Limits of doubles. -/

namespace Binary64

open Float.Model (UnpackedFloat)
open Float.Model.UnpackedFloat (Sign)

theorem eq_of_unpack {x y : Float} (h : x.toModel.unpack = y.toModel.unpack) : x = y := by
  obtain ⟨x⟩ := x
  obtain ⟨y⟩ := y
  rw [← pack_unpack x, ← pack_unpack y, h]

theorem eq_positive_of_le {u : UnpackedFloat}
    (h : UnpackedFloat.le (.infinity .positive) u = true) : u = .infinity .positive := by
  cases u with
  | infinity s =>
    cases s with
    | positive => rfl
    | negative => exact absurd h (by decide)
  | _ => cases h

theorem eq_negative_of_le {u : UnpackedFloat}
    (h : UnpackedFloat.le u (.infinity .negative) = true) : u = .infinity .negative := by
  cases u with
  | infinity s =>
    cases s with
    | negative => rfl
    | positive => exact absurd h (by decide)
  | _ => cases h

/-- Nothing is above the upper infinity but itself. -/
theorem eq_infinity_of_le {x : Float} (h : infinity ≤ x) : x = infinity := by
  have hunpack : infinity.toModel.unpack = .infinity .positive := rfl
  have hle : UnpackedFloat.le infinity.toModel.unpack x.toModel.unpack = true := of_decide_eq_true h
  rw [hunpack] at hle
  exact eq_of_unpack ((eq_positive_of_le hle).trans hunpack.symm)

/-- Nothing is below the lower infinity but itself. -/
theorem eq_neg_infinity_of_le {x : Float} (h : x ≤ -infinity) : x = -infinity := by
  have hunpack : (-infinity).toModel.unpack = .infinity .negative := rfl
  have hle : UnpackedFloat.le x.toModel.unpack (-infinity).toModel.unpack = true :=
    of_decide_eq_true h
  rw [hunpack] at hle
  exact eq_of_unpack ((eq_negative_of_le hle).trans hunpack.symm)

/-- Doubles are limited by their infinities. -/
instance : Scalar.Limited Float where
  limited s := by
    refine .inr ?_
    cases s with
    | min =>
      refine ⟨by decide, fun a ha => ?_⟩
      show Scalar.lesser infinity a = a
      unfold Scalar.lesser
      by_cases h : infinity ≤ a
      · rw [if_pos h, eq_infinity_of_le h]
      · rw [if_neg h, if_pos ha]
    | max =>
      refine ⟨by decide, fun a ha => ?_⟩
      show Scalar.greater (-infinity) a = a
      unfold Scalar.greater
      by_cases h : a ≤ -infinity
      · rw [if_pos h, eq_neg_infinity_of_le h]
      · rw [if_neg h, if_pos ha]

end Binary64

/-! ## §3. Readings. -/

namespace Extents

variable {α : Type} [Scalar α]

theorem outermostOf_nested (s : Side) {as : List α} (hne : as ≠ []) (bs : List α) :
    outermostOf s (outermostOf s as :: bs) = outermostOf s (as ++ bs) := by
  obtain ⟨a, rest, rfl⟩ := List.exists_cons_of_ne_nil hne
  exact List.foldl_append.symm

theorem outermost_nested (s : Side) {readings : List (Reading α)} (hne : readings ≠ [])
    (more : List (Reading α)) :
    outermost s (outermost s readings :: more) = outermost s (readings ++ more) := by
  rw [outermost_eq, outermost_eq, outermost_eq]
  exact Outcome.map_mapM_nested (outermostOf_nested s) hne more

theorem innermost_nested [Scalar.Limited α] (s : Side) {readings : List (Reading α)}
    (hne : readings ≠ []) (more : List (Reading α)) :
    innermost s (innermost s readings :: more) = innermost s (readings ++ more) := by
  rw [innermost_eq, innermost_eq, innermost_eq]
  exact Outcome.map_mapM_nested (Scalar.extreme_nested s.opposite) hne more

/-- **Nested operations have the readings of one.** -/
theorem compose_nested [Scalar.Limited α] (op : SetOperation) {xs : List (Extents α)}
    (hne : xs ≠ []) (ys : List (Extents α)) :
    compose op (compose op xs :: ys) = compose op (xs ++ ys) := by
  obtain ⟨x, rest, rfl⟩ := List.exists_cons_of_ne_nil hne
  cases op with
  | union =>
    refine ext_get fun e => ?_
    show (union (union (x :: rest) :: ys)).get e = (union (x :: rest ++ ys)).get e
    rw [get_union, get_union, List.map_cons, get_union, List.map_append]
    exact outermost_nested e.side (List.cons_ne_nil _ _) _
  | difference => rfl
  | intersection =>
    refine ext_get fun e => ?_
    show (intersection (intersection (x :: rest) :: ys)).get e
      = (intersection (x :: rest ++ ys)).get e
    rw [get_intersection, get_intersection, List.map_cons, get_intersection, List.map_append]
    exact innermost_nested e.side (List.cons_ne_nil _ _) _

end Extents

/-! ## §4. Points. -/

section Points

variable {Place : Type*}

theorem joined_append (sets more : List (Set Place)) :
    joined (sets ++ more) = joined sets ∪ joined more := by
  induction sets with
  | nil => simp
  | cons S rest ih => rw [List.cons_append, joined_cons, joined_cons, ih, Set.union_assoc]

/-- **Nested operations keep the points of one.** -/
theorem SetOperation.act_nested (op : SetOperation) {sets : List (Set Place)} (hne : sets ≠ [])
    (more : List (Set Place)) : op.act (op.act sets :: more) = op.act (sets ++ more) := by
  obtain ⟨S, rest, rfl⟩ := List.exists_cons_of_ne_nil hne
  cases op with
  | union => rw [act_union, act_union, act_union, joined_cons, joined_append]
  | difference =>
    show (S \ joined rest) \ joined more = S \ joined (rest ++ more)
    rw [joined_append, Set.sdiff_sdiff]
  | intersection =>
    rw [act_intersection, act_intersection, act_intersection]
    ext p
    show (∀ T ∈ {q | ∀ U ∈ S :: rest, q ∈ U} :: more, p ∈ T) ↔ ∀ T ∈ S :: rest ++ more, p ∈ T
    rw [List.forall_mem_cons, List.forall_mem_append]
    exact Iff.rfl

end Points

end SolidTree
