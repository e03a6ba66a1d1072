/-
  SolidTree.Proofs.Leaves.Origins
  ───────────────────────────────
  **WHERE THE LEAVES OF A TREE COME FROM.**

  Every shape of a tree is reached from the root by some steps down, and
  each step remembers the node that it starts from:

      n.occurrences  — all shapes of the tree with the steps to them
      o.isInHole     — a step leads into a hole of a part
      o.isSubtracted — a step leads to something that is taken away
      o.isDisabled   — a step starts from a node that is disabled
      o.leaf         — the shape under the operators on its way

  The leaves of the tree are those of its shapes that are in no hole.  Set
  operations are passed through whatever they do with an operand, and
  modifiers on the way are left behind, so a slide also sweeps what is taken
  away by a difference and what is below a node that is disabled.

  Main results:
    * `leaves_eq_occurrences` — the leaves, one by one
    * `leaves_origins`        — which shapes they are, and that all that is shown is among them
-/
import Mathlib.Data.List.Basic
import SolidTree.Number.Rational
import SolidTree.Tree.Leaves
import SolidTree.Tree.Part

namespace SolidTree

variable {α : Type}

/-! ## §1. Steps down. -/

/-- A step from a node, of which it keeps the tag, to one right below. -/
inductive Step (α : Type) where
  | child (tag : Tag) (op : Operator α)
  | operand (tag : Tag) (op : SetOperation) (first : Bool)
  /-- To a member of a part, which has structural children or has none. -/
  | member (tag : Tag) (role : Role) (solid : Bool)

namespace Step

/-- The node that the step starts from is disabled. -/
def isDisabled : Step α → Bool
  | .child tag _ | .operand tag _ _ | .member tag _ _ => tag.modifier == .disable

/-- The step leads into a hole of a part. -/
def isHole : Step α → Bool
  | .member _ .hole _ => true
  | _ => false

/-- The step leads to something that is taken away from something else. -/
def isSubtracted : Step α → Bool
  | .operand _ .difference false | .member _ .hole true => true
  | _ => false

/-- The operator that the step leads below, if any. -/
def operator? : Step α → Option (Operator α)
  | .child _ op => some op
  | _ => none

/-- What a leaf becomes when the step is taken back. -/
def wrap (s : Step α) (leaf : Leaf α) : Leaf α :=
  match s.operator? with
  | some op => leaf.under op
  | none => leaf

end Step

/-! ## §2. Shapes and the steps to them. -/

/-- A shape of a tree, with its tag and the steps that lead to it from the root. -/
structure Occurrence (α : Type) where
  steps : List (Step α)
  tag : Tag
  shape : Primitive α

namespace Occurrence

/-- The same shape, seen from one step above. -/
def via (o : Occurrence α) (s : Step α) : Occurrence α := { o with steps := s :: o.steps }

/-- The shape is in a hole. -/
def isInHole (o : Occurrence α) : Bool := o.steps.any Step.isHole

/-- The shape is in something that is taken away. -/
def isSubtracted (o : Occurrence α) : Bool := o.steps.any Step.isSubtracted

/-- The shape is below a node that is disabled. -/
def isDisabled (o : Occurrence α) : Bool := o.steps.any Step.isDisabled

/-- The shape is in no hole, in nothing that is taken away, and below no node that is
disabled. -/
def isShown (o : Occurrence α) : Bool := !o.isInHole && !o.isSubtracted && !o.isDisabled

/-- The shape with its own tag under the operators on its way. -/
def leaf (o : Occurrence α) : Leaf α := ⟨o.steps.filterMap Step.operator?, o.tag, o.shape⟩

theorem leaf_via (o : Occurrence α) (s : Step α) : (o.via s).leaf = s.wrap o.leaf := by
  unfold Step.wrap leaf via
  rw [List.filterMap_cons]
  cases s.operator? <;> rfl

/-- The leaves of those that are in no hole. -/
def leaves (os : List (Occurrence α)) : List (Leaf α) :=
  (os.filter fun o => !o.isInHole).map leaf

theorem leaves_append (os os' : List (Occurrence α)) :
    leaves (os ++ os') = leaves os ++ leaves os' := by
  unfold leaves
  rw [List.filter_append, List.map_append]

/-- A step that leads into no hole wraps every leaf. -/
theorem leaves_via {s : Step α} (hs : s.isHole = false) (os : List (Occurrence α)) :
    leaves (os.map (·.via s)) = (leaves os).map s.wrap := by
  have hkeeps : (fun o : Occurrence α => !o.isInHole) ∘ (fun o : Occurrence α => o.via s)
      = fun o => !o.isInHole := by
    funext o
    show (!(s.isHole || o.isInHole)) = !o.isInHole
    rw [hs, Bool.false_or]
  unfold leaves
  rw [List.filter_map, hkeeps, List.map_map, List.map_map]
  exact List.map_congr_left fun o _ => leaf_via o s

/-- Nothing is a leaf in a hole. -/
theorem leaves_via_hole {s : Step α} (hs : s.isHole = true) (os : List (Occurrence α)) :
    leaves (os.map (·.via s)) = [] := by
  unfold leaves
  rw [List.map_eq_nil_iff, List.filter_eq_nil_iff]
  refine List.forall_mem_map.mpr fun o _ => ?_
  show ¬ (!(s.isHole || o.isInHole)) = true
  rw [hs]
  exact Bool.false_ne_true

end Occurrence

mutual

/-- The shapes of a tree in order, each with the steps to it. -/
def Node.occurrences : Node α → List (Occurrence α)
  | .leaf tag shape => [⟨[], tag, shape⟩]
  | .apply tag op children => occurrencesOfAll (.child tag op) children
  | .compose _ _ [] => []
  | .compose tag op (first :: rest) =>
    first.occurrences.map (·.via (.operand tag op true)) ++
      occurrencesOfAll (.operand tag op false) rest
  | .part tag ⟨_, children, holes, miscellaneous, _⟩ =>
    let solid := !children.isEmpty
    occurrencesOfSlots (.member tag .child solid) children ++
      occurrencesOfSlots (.member tag .hole solid) holes ++
      occurrencesOfSlots (.member tag .misc solid) miscellaneous

/-- The shapes of each tree of a list, to which the same step leads. -/
def occurrencesOfAll (s : Step α) : List (Node α) → List (Occurrence α)
  | [] => []
  | n :: rest => n.occurrences.map (·.via s) ++ occurrencesOfAll s rest

/-- The shapes of each member of a list, to which the same step leads. -/
def occurrencesOfSlots (s : Step α) : List (Slot (Node α)) → List (Occurrence α)
  | [] => []
  | ⟨_, n⟩ :: rest => n.occurrences.map (·.via s) ++ occurrencesOfSlots s rest

end

/-! ## §3. Leaves. -/

/-- No member of the holes of a part has leaves. -/
theorem leaves_occurrencesOfSlots_hole {s : Step α} (hs : s.isHole = true)
    (slots : List (Slot (Node α))) : Occurrence.leaves (occurrencesOfSlots s slots) = [] := by
  induction slots with
  | nil => rfl
  | cons slot rest ih =>
    rw [occurrencesOfSlots, Occurrence.leaves_append, Occurrence.leaves_via_hole hs, ih]
    rfl

namespace Node

mutual

/-- **The leaves of a tree** are its shapes that are in no hole, each once and in order. -/
theorem leaves_eq_occurrences : (n : Node α) → n.leaves = Occurrence.leaves n.occurrences
  | .leaf tag shape => rfl
  | .apply tag op children => by
    rw [Node.occurrences, ← map_leavesOfAll_eq rfl children]
    rfl
  | .compose tag op [] => rfl
  | .compose tag op (first :: rest) => by
    have hwrap (b : Bool) : (Step.operand tag op b : Step α).wrap = id := rfl
    rw [Node.occurrences, Occurrence.leaves_append, Occurrence.leaves_via rfl,
      ← leaves_eq_occurrences first, ← map_leavesOfAll_eq rfl rest, hwrap, hwrap, List.map_id,
      List.map_id]
    rfl
  | .part tag ⟨name, children, holes, miscellaneous, finish⟩ => by
    have hwrap (role : Role) (b : Bool) : (Step.member tag role b : Step α).wrap = id := rfl
    rw [Node.occurrences, Occurrence.leaves_append, Occurrence.leaves_append,
      leaves_occurrencesOfSlots_hole (s := .member tag .hole _) rfl,
      ← map_leavesOfSlots_eq rfl children, ← map_leavesOfSlots_eq rfl miscellaneous, hwrap, hwrap,
      List.map_id, List.map_id, List.append_nil]
    rfl

theorem map_leavesOfAll_eq {s : Step α} (hs : s.isHole = false) :
    (ns : List (Node α)) → (leavesOfAll ns).map s.wrap = Occurrence.leaves (occurrencesOfAll s ns)
  | [] => rfl
  | n :: rest => by
    rw [leavesOfAll, occurrencesOfAll, Occurrence.leaves_append, Occurrence.leaves_via hs,
      List.map_append, leaves_eq_occurrences n, map_leavesOfAll_eq hs rest]

theorem map_leavesOfSlots_eq {s : Step α} (hs : s.isHole = false) :
    (slots : List (Slot (Node α))) →
      (leavesOfSlots slots).map s.wrap = Occurrence.leaves (occurrencesOfSlots s slots)
  | [] => rfl
  | ⟨_, n⟩ :: rest => by
    rw [leavesOfSlots, occurrencesOfSlots, Occurrence.leaves_append, Occurrence.leaves_via hs,
      List.map_append, leaves_eq_occurrences n, map_leavesOfSlots_eq hs rest]

end

/-- **The leaves are the shapes in no hole, and all that is shown is a leaf.** In the order of the
tree and each once, the leaves are the shapes in no hole, with their own tags and below the
operators above them; and all the shapes that are shown are among the leaves. -/
theorem leaves_origins (n : Node α) :
    n.leaves = (n.occurrences.filter fun o => !o.isInHole).map Occurrence.leaf ∧
      ((n.occurrences.filter Occurrence.isShown).map Occurrence.leaf).Sublist n.leaves := by
  have hleaves := leaves_eq_occurrences n
  refine ⟨hleaves, ?_⟩
  rw [hleaves]
  refine List.Sublist.map _ (List.monotone_filter_right _ fun o ho => ?_)
  unfold Occurrence.isShown at ho
  rw [Bool.and_eq_true, Bool.and_eq_true] at ho
  exact ho.1.1

/-! What a difference takes away is a leaf, and so is what is below a disabled union. -/

/-- A block without a ball. -/
def hollow : Node ℚ := .compose {} .difference [.leaf {} (.cube ⟨2, 2, 2⟩), .leaf {} (.sphere 1 8)]

/-- A block in a group that is left out. -/
def leftOut : Node ℚ := .compose { modifier := .disable } .union [.leaf {} (.cube ⟨2, 2, 2⟩)]

/-- The ball is a leaf and comes from nothing but the subtracted operand; the block is a leaf that
does not carry the modifier, and comes from nothing but the disabled group. -/
theorem leaves_show_hidden :
    (∃ leaf ∈ hollow.leaves, ∀ o ∈ hollow.occurrences, o.leaf = leaf → o.isSubtracted = true) ∧
      ∃ leaf ∈ leftOut.leaves, leaf.tag.modifier ≠ .disable ∧
        ∀ o ∈ leftOut.occurrences, o.leaf = leaf → o.isDisabled = true := by
  constructor
  · refine ⟨⟨[], {}, .sphere 1 8⟩, List.mem_cons_of_mem _ List.mem_cons_self, ?_⟩
    refine List.forall_mem_cons.mpr ⟨nofun, List.forall_mem_singleton.mpr fun _ => rfl⟩
  · refine ⟨⟨[], {}, .cube ⟨2, 2, 2⟩⟩, List.mem_cons_self, nofun, ?_⟩
    exact List.forall_mem_singleton.mpr fun _ => rfl

end Node

end SolidTree
