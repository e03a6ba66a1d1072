/-
  SolidTree.Proofs.Drawing.Rendering
  ──────────────────────────────────
  **RENDERING ENDS.**

  A node is rendered by its recipe, and so is each node that the recipe
  needs.  What a slide and a part need is built for them: it is not in the
  tree, and it may be larger than the tree.  Still no chain of needed nodes
  goes on forever, and two observations show it:

      a leaf under operators — needs the same leaf under fewer operators,
                               even below a slide, whatever it is moved by
      a part                 — needs set operations on its members, and at
                               most one operator over these

  so a node ends if the nodes in the tree below it do.

  Main results:
    * `needed_wellFounded` — no chain of needed nodes is endless
    * `rendering_ends` — with enough fuel, rendering comes to its end with the
      statement of the tree, or with the reason why there is none
-/
import SolidTree.Proofs.Drawing.Recipes

namespace SolidTree

variable {α β γ : Type}

/-! ## §1. Known outcomes. -/

/-- An outcome, or `none` if the fuel ran out before there was one. -/
abbrev Rendering (α β : Type) := ExceptT (Fault α) Option β

namespace Rendering

/-- The outcome is known. -/
def known (outcome : Except (Fault α) β) : Rendering α β := ExceptT.mk (some outcome)

theorem map_known (outcome : Except (Fault α) β) (f : β → γ) :
    f <$> known outcome = known (f <$> outcome) := by
  cases outcome <;> rfl

/-- A list of known outcomes is known. -/
theorem mapM_known {f : β → Rendering α γ} {outcome : β → Except (Fault α) γ} {bs : List β}
    (h : ∀ b ∈ bs, f b = known (outcome b)) : bs.mapM f = known (bs.mapM outcome) := by
  induction bs with
  | nil => rfl
  | cons b rest ih =>
    rw [List.forall_mem_cons] at h
    rw [List.mapM_cons, List.mapM_cons, h.1, ih h.2]
    cases outcome b with
    | error why => rfl
    | ok c => cases (rest.mapM outcome : Except (Fault α) (List γ)) <;> rfl

end Rendering

/-- A recipe has a known outcome if the nodes that it needs have. -/
theorem Recipe.follow_known {render : Node α → Rendering α (Statement α)}
    {outcome : Node α → Except (Fault α) (Statement α)} {r : Recipe α}
    (h : ∀ n ∈ r.needed, render n = .known (outcome n)) :
    r.follow render = .known (r.follow outcome) := by
  cases r with
  | fault why => rfl
  | call head => rfl
  | same n => exact h n List.mem_cons_self
  | wrap head operand =>
    rw [follow_wrap, follow_wrap, h operand List.mem_cons_self, Rendering.map_known]
  | block head opening items =>
    have hitems : ∀ n ∈ items, render n = .known (outcome n) := h
    rw [follow_block, follow_block, Rendering.mapM_known hitems, Rendering.map_known]

/-- What holds of each member of a list from some bound on holds of all from one bound on. -/
theorem exists_common_bound {P : β → Nat → Prop} {bs : List β}
    (h : ∀ b ∈ bs, ∃ bound, ∀ k, bound ≤ k → P b k) :
    ∃ bound, ∀ k, bound ≤ k → ∀ b ∈ bs, P b k := by
  induction bs with
  | nil => exact ⟨0, fun _ _ => List.forall_mem_nil _⟩
  | cons b rest ih =>
    rw [List.forall_mem_cons] at h
    obtain ⟨first, hfirst⟩ := h.1
    obtain ⟨others, hothers⟩ := ih h.2
    refine ⟨max first others, fun k hk => List.forall_mem_cons.mpr ?_⟩
    obtain ⟨hk₁, hk₂⟩ := Nat.max_le.mp hk
    exact ⟨hfirst k hk₁, hothers k hk₂⟩

/-! ## §2. Rendering with fuel. -/

variable [Scalar α]

/-- The node is rendered by its recipe, and the nodes that it needs with less fuel. -/
def Node.renderWithin : Nat → Node α → Rendering α (Statement α)
  | 0, _ => ExceptT.mk none
  | fuel + 1, n => do
    let s ← n.recipe.follow (renderWithin fuel)
    return s.underComment n.tag.comment

/-- The node and the nodes that it needs, directly or not, form no endless chain. -/
def Node.Ends (n : Node α) : Prop := Acc (fun m n : Node α => m ∈ n.recipe.needed) n

theorem Node.ends_iff {n : Node α} : n.Ends ↔ ∀ m ∈ n.recipe.needed, m.Ends :=
  ⟨fun h _ hm => h.inv hm, fun h => .intro n h⟩

/-! ## §3. Operators and set operations. -/

namespace Node

/-- The node ends, as do the nodes that it puts into a block. -/
def Settled (n : Node α) : Prop := n.Ends ∧ ∀ m ∈ n.opened, m.Ends

theorem ends_apply (tag : Tag) {op : Operator α} (hop : ∀ v, op ≠ .slide v)
    {children : List (Node α)} (h : ∀ c ∈ children, c.Ends) :
    (Node.apply tag op children).Ends := by
  rw [ends_iff, recipe_apply tag hop]
  exact fun m hm => h m (needed_operatorRecipe tag op children m hm)

theorem settled_apply (tag : Tag) {op : Operator α} {children : List (Node α)}
    (h : (Node.apply tag op children).Ends) : (Node.apply tag op children).Settled :=
  ⟨h, List.forall_mem_singleton.mpr h⟩

theorem ends_compose (tag : Tag) (op : SetOperation) {operands : List (Node α)}
    (h : ∀ c ∈ operands, c.Settled) : (Node.compose tag op operands).Ends := by
  refine ends_iff.mpr fun m hm => ?_
  obtain ⟨c, hc, rfl | hm⟩ := needed_setRecipe tag op operands m hm
  · exact (h m hc).1
  · exact (h c hc).2 m hm

theorem settled_compose (tag : Tag) (op : SetOperation) {operands : List (Node α)}
    (h : ∀ c ∈ operands, c.Settled) : (Node.compose tag op operands).Settled := by
  have hends := ends_compose tag op h
  refine ⟨hends, ?_⟩
  rcases opened_cases (.compose tag op operands) with hself | ⟨_, _, hn, hopened⟩
  · rw [hself]
    exact List.forall_mem_singleton.mpr hends
  · cases hn
    rw [hopened]
    exact fun m hm => (h m hm).1

/-! ## §4. Sweeps. -/

/-- A slide ends if its leaves do, moved or not. -/
theorem ends_slide (tag : Tag) (offset : Vec3 α) {children : List (Node α)}
    (h : ∀ leaf ∈ leavesOfAll children, ∀ moved, (leaf.shifted moved).Ends) :
    (Node.apply tag (.slide offset) children).Ends := by
  have hhulls : ∀ hull ∈ (leavesOfAll children).map fun leaf =>
      hullOf [leaf.toNode, leaf.toNode.translate offset], hull.Settled := by
    refine List.forall_mem_map.mpr fun leaf hleaf => settled_apply _ (ends_apply _ (by nofun) ?_)
    rw [leaf.translate_toNode]
    exact List.forall_mem_cons.mpr
      ⟨h leaf hleaf none, List.forall_mem_singleton.mpr (h leaf hleaf _)⟩
  refine ends_iff.mpr fun m hm => ?_
  unfold recipe at hm
  dsimp only at hm
  split at hm
  · cases hm
  · obtain rfl := List.mem_singleton.mp hm
    exact ends_compose _ .union hhulls

/-- A leaf under operators ends, moved or not. -/
theorem ends_shifted (leaf : Leaf α) (moved : Option (Vec3 α)) : (leaf.shifted moved).Ends := by
  obtain ⟨ops, tag, shape⟩ := leaf
  -- On the operators, for every offset at once: a slide needs what is below it twice.
  induction ops generalizing moved with
  | nil =>
    have hleaf : (Node.leaf tag shape).Ends := ends_iff.mpr nofun
    cases moved with
    | none => exact hleaf
    | some v => exact ends_apply _ (by nofun) (List.forall_mem_singleton.mpr hleaf)
  | cons op rest ih =>
    have hbelow : ∀ c ∈ [Leaf.toNode ⟨rest, tag, shape⟩], c.Ends :=
      List.forall_mem_singleton.mpr (ih none)
    have hstill : (Leaf.toNode ⟨op :: rest, tag, shape⟩).Ends := by
      by_cases hslide : ∃ v, op = .slide v
      · obtain ⟨v, rfl⟩ := hslide
        have hleaves : ∀ leaf ∈ leavesOfAll [Leaf.toNode ⟨rest, tag, shape⟩],
            ∀ moved, (leaf.shifted moved).Ends := by
          rw [Leaf.leavesOfAll_toNode]
          exact List.forall_mem_singleton.mpr ih
        exact ends_slide {} v hleaves
      · exact ends_apply {} (not_exists.mp hslide) hbelow
    cases moved with
    | none => exact hstill
    | some v =>
      rcases Leaf.shifted_cons op rest tag shape v with ⟨w, -, hmerged⟩ | ⟨-, hover⟩
      · rw [hmerged]
        exact ends_apply {} (by nofun) hbelow
      · rw [hover]
        exact ends_apply {} (by nofun) (List.forall_mem_singleton.mpr hstill)

/-! ## §5. Parts. -/

/-- An operator over a set operation ends if the operands do. -/
theorem ends_transform_compose (tag : Tag) {operator : Operator α}
    (hoperator : ∀ v, operator ≠ .slide v) (op : SetOperation) {operands : List (Node α)}
    (h : ∀ c ∈ operands, c.Settled) :
    (((Node.compose {} op operands).transform operator).withTag tag).Ends := by
  have hover : (Node.apply tag operator [.compose {} op operands]).Ends :=
    ends_apply tag hoperator (List.forall_mem_singleton.mpr (ends_compose {} op h))
  have hunion : (Node.apply tag operator operands).Ends :=
    ends_apply tag hoperator fun c hc => (h c hc).1
  match op, operands with
  | .union, [] => exact hover
  | .union, _ :: _ => exact hunion
  | .difference, _ | .intersection, _ => exact hover

/-- The geometry of a part ends if the members do. -/
theorem ends_geometry {members : Part α} (h : ∀ c ∈ members.listed, c.Settled) {geometry : Node α}
    (hgeometry : members.geometry = .ok geometry) (tag : Tag) : (geometry.withTag tag).Ends := by
  unfold Assembly.geometry at hgeometry
  cases harranged : members.arrange (Node.compose {}) with
  | none =>
    rw [harranged] at hgeometry
    cases hgeometry
  | some arranged =>
    obtain ⟨op, operands⟩ := arranged
    have hoperands : ∀ c ∈ operands, c.Settled :=
      Assembly.arrange_forall (fun op _ hns => settled_compose {} op hns) h harranged
    rw [harranged] at hgeometry
    dsimp only at hgeometry
    unfold Assembly.finished at hgeometry
    split at hgeometry
    · cases hgeometry
      exact ends_compose tag op hoperands
    · cases hgeometry
      exact ends_compose tag op hoperands
    · cases hgeometry
      exact ends_transform_compose tag (by rintro v ⟨⟩) op hoperands
    · split at hgeometry
      · cases hgeometry
        exact ends_transform_compose tag (by rintro v ⟨⟩) op hoperands
      · cases hgeometry

/-! ## §6. Trees. -/

/-- Every node ends. -/
theorem settled (n : Node α) : n.Settled := by
  have hall : n.Everywhere subnodes fun _ => True := everywhere_of_forall (fun _ => trivial) n
  induction hall with
  | @intro n _ _ ih =>
    cases n with
    | leaf tag shape =>
      have hends : (Node.leaf tag shape).Ends := ends_iff.mpr nofun
      exact ⟨hends, List.forall_mem_singleton.mpr hends⟩
    | compose tag op operands => exact settled_compose tag op ih
    | apply tag op children =>
      refine settled_apply tag ?_
      by_cases hslide : ∃ v, op = .slide v
      · -- A slide needs none of its children but only their leaves.
        obtain ⟨v, rfl⟩ := hslide
        exact ends_slide tag v fun leaf _ => ends_shifted leaf
      · exact ends_apply tag (not_exists.mp hslide) fun c hc => (ih c hc).1
    | part tag members =>
      have hends : (Node.part tag members).Ends := by
        refine ends_iff.mpr fun m hm => ?_
        unfold recipe at hm
        dsimp only at hm
        split at hm
        · cases hm
        next geometry hgeometry =>
          obtain rfl := List.mem_singleton.mp hm
          rw [← listed_eq_subnodes] at ih
          exact ends_geometry ih hgeometry _
      exact ⟨hends, List.forall_mem_singleton.mpr hends⟩

end Node

/-- **What is needed leads down.** No chain of nodes is endless in which each node is needed
to render the one before, although some are built for it. -/
theorem needed_wellFounded : WellFounded fun m n : Node α => m ∈ n.recipe.needed :=
  ⟨fun n => n.settled.1⟩

/-! ## §7. Runs. -/

/-- With fuel for all nodes that it needs, a node is rendered with its statement. -/
theorem Node.renderWithin_succ {n : Node α} {fuel : Nat}
    (h : ∀ m ∈ n.recipe.needed, m.renderWithin fuel = .known m.statement) :
    n.renderWithin (fuel + 1) = .known n.statement := by
  unfold renderWithin
  rw [Recipe.follow_known h, statement_eq_recipe, ← map_eq_pure_bind]
  exact Rendering.map_known _ _

/-- **Rendering ends.** From some amount of fuel on, rendering a tree comes to its end, with
the statement that the tree is drawn with or with the reason why there is none. -/
theorem rendering_ends (n : Node α) :
    ∃ depth, ∀ fuel, depth ≤ fuel → n.renderWithin fuel = some n.statement := by
  induction needed_wellFounded.apply n with
  | intro n _ ih =>
    obtain ⟨depth, hdepth⟩ := exists_common_bound ih
    refine ⟨depth + 1, fun fuel hfuel => ?_⟩
    obtain ⟨below, rfl⟩ := Nat.exists_eq_add_of_le' hfuel
    exact n.renderWithin_succ (hdepth (below + depth) (Nat.le_add_left depth below))

end SolidTree
