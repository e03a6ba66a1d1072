/-
  SolidTree.Proofs.Drawing.Arrangement
  ────────────────────────────────────
  **ARRANGED MEMBERS.**

  The members of a part are put together in the same way whatever they are:
  nodes, or what is drawn from nodes.  Three facts follow that need no other
  look at an arrangement:

      arrange_map     — arranging commutes with what is done to each member
      arrange_ne_nil  — there is an operand
      arrange_forall  — what holds of the members, and of a set operation on
                        operands of which it holds, holds of the operands
-/
import SolidTree.Proofs.Tree.Everywhere
import SolidTree.Source.Drawing

namespace SolidTree

namespace Assembly

variable {ν μ : Type}

/-- The members of a part in order of their roles. -/
def listed (p : Assembly ν) : List ν :=
  p.children.map (·.node) ++ p.holes.map (·.node) ++ p.miscellaneous.map (·.node)

theorem arrange_map {f : ν → μ} {nest : SetOperation → List ν → ν}
    {nest' : SetOperation → List μ → μ} (hnest : ∀ op xs, nest' op (xs.map f) = f (nest op xs))
    {p : Assembly ν} {p' : Assembly μ}
    (hchildren : p'.children.map (·.node) = (p.children.map (·.node)).map f)
    (hholes : p'.holes.map (·.node) = (p.holes.map (·.node)).map f)
    (hmisc : p'.miscellaneous.map (·.node) = (p.miscellaneous.map (·.node)).map f) :
    p'.arrange nest' = (p.arrange nest).map fun (op, xs) => (op, xs.map f) := by
  unfold arrange
  rw [hchildren, hholes, hmisc]
  generalize p.children.map (·.node) = children
  generalize p.holes.map (·.node) = holes
  generalize p.miscellaneous.map (·.node) = misc
  -- The cases are those of the definition: which of the three lists are empty.
  cases children <;> cases holes <;> cases misc <;> simp [hnest, ← List.map_cons]

/-- There is something to put together. -/
theorem arrange_ne_nil {nest : SetOperation → List ν → ν} {p : Assembly ν} {op : SetOperation}
    {operands : List ν} (h : p.arrange nest = some (op, operands)) : operands ≠ [] := by
  unfold arrange at h
  revert h
  generalize p.children.map (·.node) = children
  generalize p.holes.map (·.node) = holes
  generalize p.miscellaneous.map (·.node) = misc
  rintro h rfl
  cases children <;> cases holes <;> cases misc <;> cases h

theorem arrange_forall {P : ν → Prop} {nest : SetOperation → List ν → ν}
    (hnest : ∀ op xs, (∀ x ∈ xs, P x) → P (nest op xs)) {p : Assembly ν}
    (hmembers : ∀ x ∈ p.listed, P x) {op : SetOperation} {operands : List ν}
    (h : p.arrange nest = some (op, operands)) : ∀ x ∈ operands, P x := by
  unfold arrange at h
  unfold listed at hmembers
  revert h
  generalize p.children.map (·.node) = children at hmembers ⊢
  generalize p.holes.map (·.node) = holes at hmembers ⊢
  generalize p.miscellaneous.map (·.node) = misc at hmembers ⊢
  rw [List.forall_mem_append, List.forall_mem_append] at hmembers
  obtain ⟨⟨hchildren, hholes⟩, hmisc⟩ := hmembers
  -- Some members without some others are members, or a union and members.
  have hsolid : ∀ base : List ν, (∀ x ∈ base, P x) → ∀ x ∈
      (if holes.isEmpty then (SetOperation.union, base)
        else (.difference, nest .union base :: holes)).2, P x := by
    intro base hbase
    split
    · exact hbase
    · exact List.forall_mem_cons.mpr ⟨hnest .union base hbase, hholes⟩
  intro h
  match children, holes, misc with
  | [], [], [] => cases h
  | [], hole :: rest, [] =>
    cases h
    exact hholes
  | [], holes, item :: items =>
    have hoperands := hsolid (item :: items) hmisc
    cases holes <;> (cases h; exact hoperands)
  | child :: rest, holes, [] =>
    have hoperands := hsolid (child :: rest) hchildren
    cases holes <;> (cases h; exact hoperands)
  | child :: rest, holes, item :: items =>
    cases h
    exact List.forall_mem_cons.mpr ⟨hnest _ _ (hsolid (child :: rest) hchildren), hmisc⟩

end Assembly

/-- The members of a part are the nodes right below it. -/
theorem listed_eq_subnodes {α : Type} (tag : Tag) (p : Part α) :
    p.listed = (Node.part tag p).subnodes := by
  show p.listed = (p.children ++ p.holes ++ p.miscellaneous).map (·.node)
  rw [List.map_append, List.map_append]
  rfl

/-- The members that are drawn are what is drawn of the members. -/
theorem listed_drawSlots {α : Type} [Scalar α] (tag : Tag) (p : Part α) :
    Assembly.listed ⟨p.name, drawSlots p.children, drawSlots p.holes, drawSlots p.miscellaneous,
      p.finish⟩ = (Node.part tag p).subnodes.map Node.draw := by
  unfold Assembly.listed Node.subnodes
  simp only [drawSlots_eq_map, List.map_map, List.map_append]
  rfl

end SolidTree
