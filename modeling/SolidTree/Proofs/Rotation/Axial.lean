/-
  SolidTree.Proofs.Rotation.Axial
  ───────────────────────────────
  **QUARTER TURNS MAP AXES ONTO AXES.**

  The matrices of quarter turns are a monoid under `after`, and numbers of
  quarters about the axes are angles into it.  A row of such a matrix has one
  entry that is not zero, which is 1 or -1.  That is kept by `after`, and it
  is all that the edges of a turned box are computed from:

      t.RowIs row column negated   — the one entry of a row
      t.IsAxial                    — there is one in each row

  Main results:
    * `source_of_row` — the edge that an edge is read from
    * `source_after`, `reading_after` — sources and readings after two turns,
      one by one
-/
import Mathlib.Data.Fintype.Basic
import Mathlib.Tactic.Ring
import SolidTree.Geometry.QuarterTurn
import SolidTree.Number.Rational
import SolidTree.Proofs.Outcome
import SolidTree.Proofs.Rotation.Turns

namespace SolidTree.QuarterTurn

/-! ## §1. A monoid. -/

theorem ext_entry {t s : QuarterTurn} (h : ∀ row column, t.entry row column = s.entry row column) :
    t = s := by
  obtain ⟨⟨⟨a, b, c⟩, ⟨d, e, f⟩, ⟨g, i, j⟩⟩⟩ := t
  obtain ⟨⟨⟨a', b', c'⟩, ⟨d', e', f'⟩, ⟨g', i', j'⟩⟩⟩ := s
  obtain rfl : a = a' := h .x .x
  obtain rfl : b = b' := h .x .y
  obtain rfl : c = c' := h .x .z
  obtain rfl : d = d' := h .y .x
  obtain rfl : e = e' := h .y .y
  obtain rfl : f = f' := h .y .z
  obtain rfl : g = g' := h .z .x
  obtain rfl : i = i' := h .z .y
  obtain rfl : j = j' := h .z .z
  rfl

theorem entry_after (t s : QuarterTurn) (row column : Axis) :
    (t.after s).entry row column
      = t.entry row .x * s.entry .x column + t.entry row .y * s.entry .y column
        + t.entry row .z * s.entry .z column := by
  unfold after entry
  rw [Vec3.get_ofFn, Vec3.get_ofFn]

theorem entry_identity (row column : Axis) :
    identity.entry row column = if row = column then 1 else 0 := by
  cases row <;> cases column <;> rfl

instance : Monoid QuarterTurn where
  mul := after
  one := identity
  mul_assoc t s u := by
    refine ext_entry fun row column => ?_
    show ((t.after s).after u).entry row column = (t.after (s.after u)).entry row column
    simp only [entry_after]
    ring
  one_mul t := by
    refine ext_entry fun row column => ?_
    show (identity.after t).entry row column = t.entry row column
    rw [entry_after, entry_identity, entry_identity, entry_identity]
    cases row <;> simp
  mul_one t := by
    refine ext_entry fun row column => ?_
    show (t.after identity).entry row column = t.entry row column
    rw [entry_after, entry_identity, entry_identity, entry_identity]
    cases column <;> simp

/-! ## §2. Numbers of quarters. -/

theorem cosSin_mod (q : ℕ) : cosSin (q % 4) = cosSin q := by
  unfold cosSin
  rw [Nat.mod_mod]

theorem cosSin_add (m n : ℕ) :
    cosSin (m + n) = ((cosSin m).1 * (cosSin n).1 - (cosSin m).2 * (cosSin n).2,
      (cosSin m).2 * (cosSin n).1 + (cosSin m).1 * (cosSin n).2) := by
  -- Only the residues matter, and there are four of each.
  have hfour : ∀ a b : Fin 4, cosSin (a + b : ℕ)
      = ((cosSin a).1 * (cosSin b).1 - (cosSin a).2 * (cosSin b).2,
        (cosSin a).2 * (cosSin b).1 + (cosSin a).1 * (cosSin b).2) := by decide
  have h := hfour ⟨m % 4, Nat.mod_lt m (by decide)⟩ ⟨n % 4, Nat.mod_lt n (by decide)⟩
  rwa [← cosSin_mod, ← Nat.add_mod, cosSin_mod, cosSin_mod, cosSin_mod] at h

theorem about_add (axis : Axis) (m n : ℕ) :
    about axis (m + n) = (about axis m).after (about axis n) := by
  refine ext_entry fun row column => ?_
  rw [entry_after]
  unfold about
  rw [cosSin_add]
  cases axis <;> cases row <;> cases column <;> simp [entry, Vec3.get] <;> ring

/-- Quarters about the axes are angles into the quarter turns. -/
def turns : Turns ℕ QuarterTurn where
  turn := about
  turn_zero axis := by cases axis <;> rfl
  turn_add := about_add

theorem ofQuarters_eq_angles (q : Vec3 ℕ) : ofQuarters q = turns.angles q := rfl

/-- Whole turns do not matter. -/
theorem about_mod (axis : Axis) (q : ℕ) : about axis (q % 4) = about axis q := by
  unfold about
  rw [cosSin_mod]

/-! ## §3. One entry in each row. -/

/-- The row has one entry that is not zero, and it is 1 or, negated, -1. -/
def RowIs (t : QuarterTurn) (row column : Axis) (negated : Bool) : Prop :=
  ∀ c, t.entry row c = if c = column then (if negated then -1 else 1) else 0

/-- The matrix maps every axis onto an axis, perhaps flipped. -/
def IsAxial (t : QuarterTurn) : Prop := ∀ row, ∃ column negated, t.RowIs row column negated

instance : Fintype Axis := ⟨{.x, .y, .z}, fun axis => by cases axis <;> decide⟩

instance (t : QuarterTurn) (row column : Axis) (negated : Bool) :
    Decidable (t.RowIs row column negated) :=
  inferInstanceAs (Decidable (∀ _, _))

instance (t : QuarterTurn) : Decidable t.IsAxial := inferInstanceAs (Decidable (∀ _, _))

theorem RowIs.after {t s : QuarterTurn} {row middle column : Axis} {n m : Bool}
    (ht : t.RowIs row middle n) (hs : s.RowIs middle column m) :
    (t.after s).RowIs row column (n ^^ m) := by
  intro c
  -- Of the three products only the one through `middle` is left.
  rw [entry_after, ht .x, ht .y, ht .z]
  have hmiddle := hs c
  cases middle <;> simp only [reduceCtorEq, if_true, if_false, zero_mul, add_zero, zero_add] <;>
    rw [hmiddle] <;> cases n <;> cases m <;> by_cases hc : c = column <;> simp [hc]

theorem IsAxial.after {t s : QuarterTurn} (ht : t.IsAxial) (hs : s.IsAxial) :
    (t.after s).IsAxial := by
  intro row
  obtain ⟨middle, n, hrow⟩ := ht row
  obtain ⟨column, m, hmiddle⟩ := hs middle
  exact ⟨column, n ^^ m, hrow.after hmiddle⟩

theorem isAxial_about (axis : Axis) (q : ℕ) : (about axis q).IsAxial := by
  have hfour : ∀ axis, ∀ q : Fin 4, (about axis q).IsAxial := by decide
  rw [← about_mod]
  exact hfour axis ⟨q % 4, Nat.mod_lt q (by decide)⟩

theorem isAxial_ofQuarters (q : Vec3 ℕ) : (ofQuarters q).IsAxial :=
  ((isAxial_about _ _).after (isAxial_about _ _)).after (isAxial_about _ _)

/-! ## §4. Edges. -/

/-- Both edges of an axis are read from one axis, swapped if they are negated. -/
theorem source_on (t : QuarterTurn) (axis : Axis) :
    ∃ column negated, ∀ side, t.source (.on axis side)
      = (.on column (if negated then side.opposite else side), negated) := by
  unfold source
  simp only [Edge.axis_on, Edge.side_on]
  generalize (Axis.all.find? fun a => t.entry axis a != 0).getD axis = column
  by_cases hpositive : 0 < t.entry axis column
  · refine ⟨column, false, fun side => ?_⟩
    rw [if_pos hpositive]
    rfl
  · refine ⟨column, true, fun side => ?_⟩
    rw [if_neg hpositive]
    rfl

/-- Opposite edges are read from opposite edges, with the same sign. -/
theorem source_opposite (t : QuarterTurn) (e : Edge) :
    t.source e.opposite = ((t.source e).1.opposite, (t.source e).2) := by
  obtain ⟨column, negated, hsource⟩ := t.source_on e.axis
  have he := hsource e.side
  rw [Edge.on_axis_side] at he
  unfold Edge.opposite
  rw [he, hsource, Edge.axis_on, Edge.side_on]
  cases negated <;> rfl

/-- The edge is read from the axis of the one entry of its row. -/
theorem source_of_row {t : QuarterTurn} {e : Edge} {column : Axis} {negated : Bool}
    (h : t.RowIs e.axis column negated) :
    t.source e = (.on column (if negated then e.side.opposite else e.side), negated) := by
  have hfind : (Axis.all.find? fun a => t.entry e.axis a != 0) = some column := by
    unfold Axis.all
    simp only [List.find?_cons, h .x, h .y, h .z]
    cases column <;> cases negated <;> rfl
  unfold source
  simp only [hfind, Option.getD_some, h column, if_true]
  cases negated <;> rfl

/-- Under two turns an edge is read from the source of its source, and is negated once for
each of them. -/
theorem source_after {t s : QuarterTurn} (ht : t.IsAxial) (hs : s.IsAxial) (e : Edge) :
    (t.after s).source e
      = ((s.source (t.source e).1).1, (t.source e).2 ^^ (s.source (t.source e).1).2) := by
  obtain ⟨middle, n, hrow⟩ := ht e.axis
  obtain ⟨column, m, hmiddle⟩ := hs middle
  have hinner : s.RowIs (Edge.on middle (if n then e.side.opposite else e.side)).axis column m := by
    rw [Edge.axis_on]
    exact hmiddle
  rw [source_of_row (hrow.after hmiddle), source_of_row hrow, source_of_row hinner, Edge.side_on]
  -- The side is flipped once for each of the two negations.
  cases n <;> cases m <;> cases e.side <;> rfl

/-- A reading is the one at the source of the edge, negated if the source is. -/
theorem reading_eq {α : Type} [Scalar α] (t : QuarterTurn) (before : Edge → Reading α)
    (e : Edge) :
    t.reading before e
      = (before (t.source e).1).map fun a => if (t.source e).2 then -a else a := rfl

theorem reading_of_row {α : Type} [Scalar α] {t : QuarterTurn} {e : Edge} {column : Axis}
    {negated : Bool} (h : t.RowIs e.axis column negated) (before : Edge → Reading α) :
    t.reading before e
      = (before (.on column (if negated then e.side.opposite else e.side))).map
          fun a => if negated then -a else a := by
  rw [reading_eq, source_of_row h]

/-- The turn that moves nothing reads what is there. -/
theorem reading_identity {α : Type} [Scalar α] (before : Edge → Reading α) (e : Edge) :
    identity.reading before e = before e := by
  have hrow : identity.RowIs e.axis e.axis false := by
    intro c
    rw [entry_identity]
    exact if_congr eq_comm rfl rfl
  rw [reading_of_row hrow]
  show (before (.on e.axis e.side)).map (fun a => a) = before e
  rw [Edge.on_axis_side]
  cases before e <;> rfl

/-- After two turns an edge is read through the outer turn and then through the inner
one. -/
theorem reading_after {t s : QuarterTurn} (ht : t.IsAxial) (hs : s.IsAxial)
    (before : Edge → Reading ℚ) (e : Edge) :
    (t.after s).reading before e = t.reading (s.reading before) e := by
  rw [reading_eq, reading_eq, reading_eq, source_after ht hs]
  generalize t.source e = outer
  generalize s.source outer.1 = inner
  cases before inner.1 with
  | error fault => rfl
  | ok a =>
    show Except.ok (if outer.2 ^^ inner.2 then -a else a)
      = Except.ok (if outer.2 then -(if inner.2 then -a else a) else if inner.2 then -a else a)
    cases outer.2 <;> cases inner.2 <;> simp

end SolidTree.QuarterTurn
