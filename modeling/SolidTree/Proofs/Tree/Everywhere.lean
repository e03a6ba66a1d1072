/-
  SolidTree.Proofs.Tree.Everywhere
  ────────────────────────────────
  **PROPERTIES OF ALL NODES OF A TREE.**

  `n.Everywhere next P` says that `P` holds of `n` and of every node that is
  reached from it along `next`.  Two ways down are used:

      subnodes — to the children, the operands, and every member of a part
      counted  — the same, but into a part only by its structural children

  An induction on `Everywhere` is an induction on the tree that comes with
  the property at every node.  `Somewhere` is the counterpart for a property
  that some node has.  `IsGroup` and `HasNoFinish` are properties of nodes
  that more than one theory is about.
-/
import SolidTree.Tree.Node

namespace SolidTree.Node

variable {α : Type}

/-! ## §1. Along the tree. -/

/-- All nodes right below, those inside of a part included. -/
def subnodes : Node α → List (Node α)
  | .leaf .. => []
  | .apply _ _ children => children
  | .compose _ _ operands => operands
  | .part _ p => (p.children ++ p.holes ++ p.miscellaneous).map (·.node)

/-- The nodes right below that a measure looks at. -/
def counted : Node α → List (Node α)
  | .leaf .. => []
  | .apply _ _ children => children
  | .compose _ _ operands => operands
  | .part _ p => p.children.map (·.node)

/-- A property of a node and of all nodes that are reached from it. -/
inductive Everywhere (next : Node α → List (Node α)) (P : Node α → Prop) : Node α → Prop where
  | intro {n : Node α} (here : P n) (there : ∀ c ∈ next n, Everywhere next P c) :
    Everywhere next P n

namespace Everywhere

variable {next : Node α → List (Node α)} {P Q : Node α → Prop} {n : Node α}

theorem here (h : n.Everywhere next P) : P n := by
  cases h with
  | intro here _ => exact here

theorem there (h : n.Everywhere next P) : ∀ c ∈ next n, c.Everywhere next P := by
  cases h with
  | intro _ there => exact there

theorem imp (h : n.Everywhere next P) (himp : ∀ n, P n → Q n) : n.Everywhere next Q := by
  induction h with
  | intro here _ ih => exact .intro (himp _ here) ih

theorem and (hP : n.Everywhere next P) (hQ : n.Everywhere next Q) :
    n.Everywhere next fun n => P n ∧ Q n := by
  induction hP with
  | intro here _ ih => exact .intro ⟨here, hQ.here⟩ fun c hc => ih c hc (hQ.there c hc)

end Everywhere

theorem everywhere_iff {next : Node α → List (Node α)} {P : Node α → Prop} {n : Node α} :
    n.Everywhere next P ↔ P n ∧ ∀ c ∈ next n, c.Everywhere next P :=
  ⟨fun h => ⟨h.here, h.there⟩, fun h => .intro h.1 h.2⟩

mutual

/-- What holds of every node holds along a tree. -/
theorem everywhere_of_forall {P : Node α → Prop} (h : ∀ n, P n) :
    (n : Node α) → n.Everywhere subnodes P
  | .leaf _ _ => .intro (h _) nofun
  | .apply _ _ children => .intro (h _) (everywhere_of_forall_all h children)
  | .compose _ _ operands => .intro (h _) (everywhere_of_forall_all h operands)
  | .part _ ⟨_, children, holes, miscellaneous, _⟩ => by
    refine .intro (h _) fun c hc => ?_
    obtain ⟨slot, hslot, rfl⟩ := List.mem_map.mp hc
    rcases List.mem_append.mp hslot with hslot | hslot
    · rcases List.mem_append.mp hslot with hslot | hslot
      · exact everywhere_of_forall_slots h children slot hslot
      · exact everywhere_of_forall_slots h holes slot hslot
    · exact everywhere_of_forall_slots h miscellaneous slot hslot

theorem everywhere_of_forall_all {P : Node α → Prop} (h : ∀ n, P n) :
    (ns : List (Node α)) → ∀ c ∈ ns, c.Everywhere subnodes P
  | [] => List.forall_mem_nil _
  | n :: rest =>
    List.forall_mem_cons.mpr ⟨everywhere_of_forall h n, everywhere_of_forall_all h rest⟩

theorem everywhere_of_forall_slots {P : Node α → Prop} (h : ∀ n, P n) :
    (slots : List (Slot (Node α))) → ∀ s ∈ slots, s.node.Everywhere subnodes P
  | [] => List.forall_mem_nil _
  | ⟨_, n⟩ :: rest =>
    List.forall_mem_cons.mpr ⟨everywhere_of_forall h n, everywhere_of_forall_slots h rest⟩

end

/-- A property of a node or of some node that is reached from it. -/
inductive Somewhere (next : Node α → List (Node α)) (P : Node α → Prop) : Node α → Prop where
  | here {n : Node α} (h : P n) : Somewhere next P n
  | there {n c : Node α} (hc : c ∈ next n) (h : Somewhere next P c) : Somewhere next P n

theorem somewhere_iff {next : Node α → List (Node α)} {P : Node α → Prop} {n : Node α} :
    n.Somewhere next P ↔ P n ∨ ∃ c ∈ next n, c.Somewhere next P := by
  constructor
  · rintro (h | ⟨hc, h⟩)
    · exact .inl h
    · exact .inr ⟨_, hc, h⟩
  · rintro (h | ⟨c, hc, h⟩)
    · exact .here h
    · exact .there hc h

/-! ## §2. Groups and parts. -/

/-- The node is a plain union of several operands. A block and an operator that it is
alone in take over its operands. -/
def IsGroup : Node α → Prop
  | .compose tag .union operands => tag.isPlain ∧ 2 ≤ operands.length
  | _ => False

/-- The node is no part with a finish. -/
def HasNoFinish : Node α → Prop
  | .part _ members => members.finish = none
  | _ => True

end SolidTree.Node
