/-
  SolidTree.Proofs.Meaning.Calls
  ──────────────────────────────
  **WHAT PROGRAMS AND TREES STAND FOR.**

  A program is a tree of calls, and a call stands for a set of points.  The
  three set operations have their meaning by name; what all other calls mean
  is left open, as a `Vocabulary` over any type of points:

      shape      — a call by itself, by its name and arguments
      operator   — a call over a set, the union of what is under it
      minkowski  — the one call that tells its operands apart

  Different operators and different leaves are different calls, so that a
  vocabulary may give each of them a meaning of its own.

  `Statement.meaning` reads a program by the names of its calls, and
  `Node.meaning` reads a model tree by its constructors.  A part is read by
  the roles of its members and not through the program that draws it.
  Neither looks at modifiers or comments.
-/
import Mathlib.Order.BooleanAlgebra.Set
import SolidTree.Source.Drawing

namespace SolidTree

variable {α : Type} {Place : Type*}

/-! ## §1. Set operations. -/

/-- All points of some sets. -/
def joined (sets : List (Set Place)) : Set Place := {p | ∃ S ∈ sets, p ∈ S}

/-- The points that a set operation keeps of its operands. -/
def SetOperation.act (op : SetOperation) (sets : List (Set Place)) : Set Place :=
  match op, sets with
  | .union, _ => joined sets
  | .difference, [] => ∅
  | .difference, first :: rest => first \ joined rest
  | .intersection, _ => {p | ∀ S ∈ sets, p ∈ S}

@[simp] theorem joined_nil : joined ([] : List (Set Place)) = ∅ := by
  ext p
  simp [joined]

@[simp] theorem joined_cons (S : Set Place) (rest : List (Set Place)) :
    joined (S :: rest) = S ∪ joined rest := by
  ext p
  simp [joined]

theorem SetOperation.act_union (sets : List (Set Place)) : union.act sets = joined sets := by
  cases sets <;> rfl

theorem SetOperation.act_intersection (sets : List (Set Place)) :
    intersection.act sets = {p | ∀ S ∈ sets, p ∈ S} := by
  cases sets <;> rfl

/-- On one operand no set operation does anything. -/
@[simp] theorem SetOperation.act_singleton (op : SetOperation) (S : Set Place) :
    op.act [S] = S := by
  cases op with
  | union => simp [act_union]
  | difference => simp [act]
  | intersection =>
    ext p
    simp [act_intersection]

/-- The set operation of a call, if it is one. -/
def SetOperation.ofName? (name : String) : Option SetOperation :=
  if name = "union" then some .union
  else if name = "difference" then some .difference
  else if name = "intersection" then some .intersection
  else none

theorem SetOperation.ofName?_name (op : SetOperation) : ofName? op.name = some op := by
  cases op <;> rfl

theorem SetOperation.ofName?_operatorName (op : Operator α) : ofName? op.name = none := by
  cases op <;> rfl

/-! ## §2. Vocabularies. -/

/-- A meaning for every call but the set operations. -/
structure Vocabulary (α : Type) (Place : Type*) where
  /-- The points of a call by itself. -/
  shape : String → Arguments α → Set Place
  /-- What a call makes of the union of what is under it. -/
  operator : String → Arguments α → Set Place → Set Place
  /-- The sum of some sets. -/
  minkowski : List (Set Place) → Set Place

namespace Vocabulary

/-- The points of a call, by its name, over what is under it. -/
def read (V : Vocabulary α Place) (head : Head α) (sets : List (Set Place)) : Set Place :=
  match SetOperation.ofName? head.name with
  | some op => op.act sets
  | none =>
    if head.name = "minkowski" then V.minkowski sets
    else V.operator head.name head.arguments (joined sets)

/-- The points of an operator over its children. -/
def apply (V : Vocabulary α Place) (op : Operator α) (sets : List (Set Place)) : Set Place :=
  match op with
  | .minkowski => V.minkowski sets
  | _ => V.operator op.name op.arguments (joined sets)

/-- The call that an operator is written as means what the operator does. -/
theorem read_operator (V : Vocabulary α Place) (op : Operator α) {head : Head α}
    (hname : head.name = op.name) (harguments : head.arguments = op.arguments)
    (sets : List (Set Place)) : V.read head sets = V.apply op sets := by
  unfold read
  rw [hname, harguments, SetOperation.ofName?_operatorName]
  cases op <;> rfl

theorem read_setOperation (V : Vocabulary α Place) (op : SetOperation) {head : Head α}
    (hname : head.name = op.name) (sets : List (Set Place)) :
    V.read head sets = op.act sets := by
  unfold read
  rw [hname, SetOperation.ofName?_name]

end Vocabulary

/-! ## §3. Programs. -/

mutual

/-- The points of a program. -/
def Statement.meaning (V : Vocabulary α Place) : Statement α → Set Place
  | .call head => V.shape head.name head.arguments
  | .over head operand => V.read head [operand.meaning V]
  | .block head _ items => V.read head (meaningsOfItems V items)

/-- The points of each statement of a block. -/
def meaningsOfItems (V : Vocabulary α Place) : List (Statement α) → List (Set Place)
  | [] => []
  | s :: rest => s.meaning V :: meaningsOfItems V rest

end

theorem meaningsOfItems_eq_map (V : Vocabulary α Place) (items : List (Statement α)) :
    meaningsOfItems V items = items.map (·.meaning V) := by
  induction items with
  | nil => rfl
  | cons s rest ih => rw [meaningsOfItems, ih, List.map_cons]

/-- A comment does not change what a statement means. -/
@[simp] theorem Statement.meaning_underComment (V : Vocabulary α Place) (s : Statement α)
    (comment : Option String) : (s.underComment comment).meaning V = s.meaning V := by
  cases comment with
  | none => rfl
  | some comment =>
    rw [underComment]
    by_cases h : comment.isEmpty
    · rw [if_pos h]
    · rw [if_neg h]
      cases s <;> rfl

/-! ## §4. Trees. -/

/-- The points of a part, by the points of its members in each role. Holes are cut out
of the structural children, or of the rest where there are no children; a part of
holes alone shows them. -/
def assembled (children holes miscellaneous : List (Set Place)) : Set Place :=
  match children, miscellaneous with
  | [], [] => joined holes
  | [], _ => joined miscellaneous \ joined holes
  | _, _ => (joined children \ joined holes) ∪ joined miscellaneous

mutual

/-- The points of a tree. -/
def Node.meaning (V : Vocabulary α Place) : Node α → Set Place
  | .leaf _ shape => V.shape shape.name shape.arguments
  | .apply _ op children => V.apply op (meaningsOfAll V children)
  | .compose _ op operands => op.act (meaningsOfAll V operands)
  | .part _ ⟨_, children, holes, miscellaneous, _⟩ =>
    assembled (meaningsOfSlots V children) (meaningsOfSlots V holes)
      (meaningsOfSlots V miscellaneous)

/-- The points of each tree of a list. -/
def meaningsOfAll (V : Vocabulary α Place) : List (Node α) → List (Set Place)
  | [] => []
  | n :: rest => n.meaning V :: meaningsOfAll V rest

/-- The points of each member of a list. -/
def meaningsOfSlots (V : Vocabulary α Place) : List (Slot (Node α)) → List (Set Place)
  | [] => []
  | ⟨_, n⟩ :: rest => n.meaning V :: meaningsOfSlots V rest

end

theorem meaningsOfAll_eq_map (V : Vocabulary α Place) (ns : List (Node α)) :
    meaningsOfAll V ns = ns.map (·.meaning V) := by
  induction ns with
  | nil => rfl
  | cons n rest ih => rw [meaningsOfAll, ih, List.map_cons]

theorem meaningsOfSlots_eq_map (V : Vocabulary α Place) (slots : List (Slot (Node α))) :
    meaningsOfSlots V slots = slots.map (·.node.meaning V) := by
  induction slots with
  | nil => rfl
  | cons s rest ih => rw [meaningsOfSlots, ih, List.map_cons]

end SolidTree
