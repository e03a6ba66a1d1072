/-
  SolidTree.Proofs.Drawing.Failure
  ────────────────────────────────
  **WHEN A TREE CANNOT BE DRAWN.**

  A composite of nothing cannot be drawn, and nothing else goes wrong in a
  tree without finishes.  Some composites of nothing are never looked at:
  below a slide only the leaves are drawn, so there a slide fails that shows
  no leaf, whatever the reason, and an empty composite beside a leaf does
  not show.

      Follows operands d  — `d` fails iff there are no operands or one fails
      drawn               — the nodes right below that are drawn themselves
      ShowsNothing        — there is nothing that the node could be drawn from

  Main results:
    * `source_fails_iff` — a drawn node that shows nothing is the only way to
      fail
    * `failure_below_slide` — it is not the same as an empty composite
-/
import SolidTree.Proofs.Drawing.Arrangement
import SolidTree.Proofs.Outcome

namespace SolidTree

open Outcome

variable {α : Type}

/-! ## §1. Failures of empty composites. -/

/-- If there is no result, that is because of an empty composite. -/
def BlamesEmpty {β : Type} (x : Except (Fault α) β) : Prop :=
  ∀ fault, x = .error fault → ∃ composite, fault = .emptyComposite composite

section

variable {β γ : Type}

theorem blamesEmpty_ok (b : β) : BlamesEmpty (.ok b : Except (Fault α) β) := by
  intro fault h
  cases h

theorem blamesEmpty_error (composite : String) :
    BlamesEmpty (.error (.emptyComposite composite) : Except (Fault α) β) := by
  intro fault h
  cases h
  exact ⟨composite, rfl⟩

theorem BlamesEmpty.map {x : Except (Fault α) β} (h : BlamesEmpty x) (f : β → γ) :
    BlamesEmpty (x.map f) :=
  fun fault hfault => h fault (map_eq_error.mp hfault)

theorem blamesEmpty_mapM {f : β → Except (Fault α) γ} {bs : List β}
    (h : ∀ b ∈ bs, BlamesEmpty (f b)) : BlamesEmpty (bs.mapM f) := by
  intro fault hfault
  obtain ⟨b, hmem, hb⟩ := mapM_eq_error hfault
  exact h b hmem fault hb

end

namespace Drawing

/-! ## §2. Drawings that fail with what they are drawn from. -/

/-- The drawing has no statement. -/
def Fails (d : Drawing α) : Prop := Outcome.Fails d.alone

/-- A block that holds nothing else fails iff the statement does, and both because of an
empty composite. -/
structure IsFair (d : Drawing α) : Prop where
  alone : BlamesEmpty d.alone
  items : ∀ item ∈ d.items, BlamesEmpty item
  agrees : (∃ item ∈ d.items, Outcome.Fails item) ↔ d.Fails

theorem isFair_single {r : Drawn α} (h : BlamesEmpty r) : (single r).IsFair where
  alone := h
  items := List.forall_mem_singleton.mpr h
  agrees := by
    unfold single Drawing.Fails
    simp

/-- The drawing needs some operands and fails if one of them does. -/
structure Follows (operands : List (Drawing α)) (d : Drawing α) : Prop where
  fair : d.IsFair
  fails_iff : d.Fails ↔ operands = [] ∨ ∃ o ∈ operands, o.Fails

theorem Follows.single_alone {operands : List (Drawing α)} {d : Drawing α}
    (h : Follows operands d) : Follows operands (single d.alone) where
  fair := isFair_single h.fair.alone
  fails_iff := h.fails_iff

theorem follows_nothing (composite : String) :
    Follows [] (single (.error (.emptyComposite composite) : Drawn α)) where
  fair := isFair_single (blamesEmpty_error composite)
  fails_iff := iff_of_true (fails_error _) (.inl rfl)

variable {operands : List (Drawing α)}

/-- Operands in a block fail iff one of them does. -/
theorem fails_block (h : ∀ o ∈ operands, o.IsFair) :
    Outcome.Fails (block operands) ↔ ∃ o ∈ operands, o.Fails := by
  match operands with
  | [] => exact fails_mapM
  | _ :: _ :: _ => exact fails_mapM
  | [only] =>
    -- A lone operand is not asked for its statement but for what it puts into the block.
    have hitems : Outcome.Fails (block [only]) ↔ ∃ item ∈ only.items, Outcome.Fails item :=
      fails_mapM
    rw [hitems, (h only List.mem_cons_self).agrees]
    simp

theorem blamesEmpty_block (h : ∀ o ∈ operands, o.IsFair) : BlamesEmpty (block operands) := by
  match operands with
  | [] => exact blamesEmpty_ok []
  | _ :: _ :: _ => exact blamesEmpty_mapM fun o ho => (h o ho).alone
  | [only] => exact blamesEmpty_mapM (h only List.mem_cons_self).items

/-- An operator fails without operands or with one of them. -/
theorem follows_apply (tag : Tag) (op : Operator α) (h : ∀ o ∈ operands, o.IsFair) :
    Follows operands (Drawing.apply tag op operands) := by
  match operands with
  | [] => exact follows_nothing op.name
  | [only] =>
    have hblames := (h only List.mem_cons_self).alone
    refine ⟨isFair_single ((hblames.map _).map _), (fails_map.trans fails_map).trans ?_⟩
    simp [Drawing.Fails]
  | first :: second :: rest =>
    refine ⟨isFair_single (((blamesEmpty_block h).map _).map _),
      (fails_map.trans fails_map).trans ?_⟩
    rw [fails_block h]
    simp

/-- The statement of a set operation fails without operands or with one of them. -/
theorem compose_alone (tag : Tag) (op : SetOperation) (h : ∀ o ∈ operands, o.IsFair) :
    BlamesEmpty (Drawing.compose tag op operands).alone ∧
      ((Drawing.compose tag op operands).Fails ↔ operands = [] ∨ ∃ o ∈ operands, o.Fails) := by
  unfold Drawing.Fails Drawing.compose
  rw [apply_ite Drawing.alone, single, ite_self, fails_map]
  split
  next _ _ _ only _ =>
    -- A union of one operand is that operand.
    refine ⟨(h only List.mem_cons_self).alone.map _, ?_⟩
    simp
  next =>
    split
    next => exact ⟨blamesEmpty_error _, iff_of_true (fails_error _) (.inl rfl)⟩
    next hne =>
      refine ⟨((blamesEmpty_block h).map _).map _, ?_⟩
      rw [fails_map, fails_block h, or_iff_right hne]
      rfl

/-- A set operation fails without operands or with one of them. -/
theorem follows_compose (tag : Tag) (op : SetOperation) (h : ∀ o ∈ operands, o.IsFair) :
    Follows operands (Drawing.compose tag op operands) := by
  obtain ⟨hblames, hfails⟩ := compose_alone tag op h
  refine ⟨?_, hfails⟩
  by_cases hplain : op = .union ∧ tag.isPlain = true ∧ operands ≠ []
  · -- A plain union puts its operands into a block of its own.
    have hitems : (Drawing.compose tag op operands).items = operands.map Drawing.alone := by
      unfold Drawing.compose
      rw [if_pos hplain]
    refine ⟨hblames, ?_, ?_⟩
    · rw [hitems]
      exact List.forall_mem_map.mpr fun o ho => (h o ho).alone
    · rw [hitems, hfails, or_iff_right hplain.2.2]
      simp [Drawing.Fails]
  · have hsingle : Drawing.compose tag op operands
        = single (Drawing.compose tag op operands).alone := by
      unfold Drawing.compose
      rw [if_neg hplain]
      rfl
    rw [hsingle]
    exact isFair_single hblames

/-! ## §3. Parts. -/

/-- Some members are arranged as some operands, of which one fails iff a member does. -/
structure Gathers (members operands : List (Drawing α)) : Prop where
  occupied : members ≠ []
  nonempty : operands ≠ []
  fair : ∀ o ∈ operands, o.IsFair
  fails_iff : (∃ o ∈ operands, o.Fails) ↔ ∃ m ∈ members, m.Fails

theorem gathers_self {members : List (Drawing α)} (hne : members ≠ [])
    (h : ∀ m ∈ members, m.IsFair) : Gathers members members :=
  ⟨hne, hne, h, Iff.rfl⟩

/-- A set operation on gathered operands is an operand in their place. -/
theorem Gathers.nest {members rest : List (Drawing α)} (h : Gathers members operands)
    (op : SetOperation) (hrest : ∀ o ∈ rest, o.IsFair) :
    Gathers (members ++ rest) (Drawing.compose {} op operands :: rest) := by
  have hfollows := follows_compose {} op h.fair
  refine ⟨List.append_ne_nil_of_left_ne_nil h.occupied rest, List.cons_ne_nil _ _,
    List.forall_mem_cons.mpr ⟨hfollows.fair, hrest⟩, ?_⟩
  simp only [List.exists_mem_cons_iff, hfollows.fails_iff, or_iff_right h.nonempty, h.fails_iff,
    List.mem_append, or_and_right, exists_or]

theorem Gathers.of_perm {members members' : List (Drawing α)} (h : Gathers members operands)
    (hperm : members.Perm members') : Gathers members' operands where
  occupied := fun hnil => h.occupied (hnil ▸ hperm).eq_nil
  nonempty := h.nonempty
  fair := h.fair
  fails_iff := h.fails_iff.trans <| exists_congr fun _ => and_congr_left' hperm.mem_iff

/-- Some operands without some holes. -/
theorem gathers_solid {base holes : List (Drawing α)} (hne : base ≠ [])
    (hbase : ∀ o ∈ base, o.IsFair) (hholes : ∀ o ∈ holes, o.IsFair) :
    Gathers (base ++ holes)
      (if holes.isEmpty then (SetOperation.union, base)
        else (.difference, Drawing.compose {} .union base :: holes)).2 := by
  have hself := gathers_self hne hbase
  cases holes with
  | nil =>
    rw [List.append_nil]
    exact hself
  | cons hole rest => exact hself.nest .union hholes

/-- A part is arranged iff it has a member, and then one of its operands fails iff a
member does. -/
theorem gathers_arrange {members : Assembly (Drawing α)}
    (h : ∀ m ∈ members.listed, m.IsFair) :
    (members.arrange (Drawing.compose {}) = none ∧ members.listed = []) ∨
      ∃ op operands, members.arrange (Drawing.compose {}) = some (op, operands) ∧
        Gathers (members.listed) operands := by
  unfold Assembly.arrange
  unfold Assembly.listed at h ⊢
  generalize members.children.map (·.node) = children at h ⊢
  generalize members.holes.map (·.node) = holes at h ⊢
  generalize members.miscellaneous.map (·.node) = misc at h ⊢
  -- The cases are those of the definition: which of the three lists are empty.
  rw [List.forall_mem_append, List.forall_mem_append] at h
  obtain ⟨⟨hchildren, hholes⟩, hmisc⟩ := h
  match children, misc with
  | [], [] =>
    cases holes with
    | nil => exact .inl ⟨rfl, rfl⟩
    | cons hole rest =>
      refine .inr ⟨_, _, rfl, ?_⟩
      rw [List.nil_append, List.append_nil]
      exact gathers_self (List.cons_ne_nil _ _) hholes
  | [], item :: items =>
    have hsolid := gathers_solid (List.cons_ne_nil item items) hmisc hholes
    have hgathers := hsolid.of_perm List.perm_append_comm
    cases holes with
    | nil => exact .inr ⟨_, _, rfl, hgathers⟩
    | cons hole rest => exact .inr ⟨_, _, rfl, hgathers⟩
  | child :: rest, [] =>
    have hsolid := gathers_solid (List.cons_ne_nil child rest) hchildren hholes
    refine .inr ⟨_, _, rfl, ?_⟩
    rw [List.append_nil]
    exact hsolid
  | child :: rest, item :: items =>
    have hsolid := gathers_solid (List.cons_ne_nil child rest) hchildren hholes
    exact .inr ⟨_, _, rfl, hsolid.nest _ hmisc⟩

/-- A part without a finish fails without members or with one of them. -/
theorem follows_part [Scalar α] (tag : Tag) {members : Assembly (Drawing α)}
    (hfinish : members.finish = none) (h : ∀ m ∈ members.listed, m.IsFair) :
    Follows (members.listed) (Drawing.part tag members) := by
  unfold Drawing.part
  rcases gathers_arrange h with ⟨hnone, hempty⟩ | ⟨op, operands, hsome, hgathers⟩
  · rw [hnone, hempty]
    exact follows_nothing _
  · rw [hsome, hfinish]
    have hfollows := (follows_compose tag op hgathers.fair).single_alone
    refine ⟨hfollows.fair, hfollows.fails_iff.trans ?_⟩
    rw [or_iff_right hgathers.nonempty, hgathers.fails_iff, or_iff_right hgathers.occupied]

end Drawing

/-! ## §4. Trees. -/

namespace Node

/-- The nodes right below that are drawn themselves. A slide draws leaves only. -/
def drawn : Node α → List (Node α)
  | .apply _ (.slide _) _ => []
  | n => n.subnodes

/-- The node is a composite of nothing. -/
def IsEmpty : Node α → Prop
  | .leaf .. => False
  | n => n.subnodes = []

/-- There is nothing that the node could be drawn from. -/
def ShowsNothing : Node α → Prop
  | .apply _ (.slide _) children => leavesOfAll children = []
  | n => n.IsEmpty

end Node

section Trees

variable [Scalar α]

/-- A sweep fails iff there is no leaf to sweep. -/
theorem Drawing.fails_slide (tag : Tag) (offset : Vec3 α) (leaves : List (Leaf α)) :
    (Drawing.slide tag offset leaves).IsFair ∧
      ((Drawing.slide tag offset leaves).Fails ↔ leaves = []) := by
  have hleaf : ∀ o ∈ leaves.map fun leaf => single (.ok (leaf.swept offset)),
      o.IsFair ∧ ¬ o.Fails := by
    intro o ho
    obtain ⟨leaf, -, rfl⟩ := List.mem_map.mp ho
    exact ⟨isFair_single (blamesEmpty_ok _), not_fails_ok _⟩
  have hfollows := (follows_compose tag .union fun o ho => (hleaf o ho).1).single_alone
  refine ⟨hfollows.fair, hfollows.fails_iff.trans ?_⟩
  rw [List.map_eq_nil_iff, or_iff_left]
  rintro ⟨o, ho, hfails⟩
  exact (hleaf o ho).2 hfails

/-- A node that is drawn from the nodes below it fails as they do. -/
theorem fails_of_follows {n : Node α} {ns : List (Node α)} (hempty : n.ShowsNothing ↔ ns = [])
    (hdrawn : n.drawn = ns)
    (hfollows : (∀ c ∈ ns, c.draw.IsFair) → Drawing.Follows (ns.map Node.draw) n.draw)
    (ih : ∀ c ∈ ns, c.draw.IsFair ∧
      (c.draw.Fails ↔ c.Somewhere Node.drawn Node.ShowsNothing)) :
    n.draw.IsFair ∧ (n.draw.Fails ↔ n.Somewhere Node.drawn Node.ShowsNothing) := by
  have hfollows := hfollows fun c hc => (ih c hc).1
  refine ⟨hfollows.fair, hfollows.fails_iff.trans ?_⟩
  rw [Node.somewhere_iff, hempty, hdrawn, List.map_eq_nil_iff]
  refine or_congr_right ⟨?_, ?_⟩
  · rintro ⟨o, ho, hfails⟩
    obtain ⟨c, hc, rfl⟩ := List.mem_map.mp ho
    exact ⟨c, hc, (ih c hc).2.mp hfails⟩
  · rintro ⟨c, hc, hsome⟩
    exact ⟨c.draw, List.mem_map_of_mem hc, (ih c hc).2.mpr hsome⟩

/-- A tree without finishes fails to be drawn iff somewhere a node that is drawn shows
nothing. -/
theorem fails_draw {n : Node α} (h : n.Everywhere Node.subnodes Node.HasNoFinish) :
    n.draw.IsFair ∧ (n.draw.Fails ↔ n.Somewhere Node.drawn Node.ShowsNothing) := by
  induction h with
  | @intro n here there ih =>
    cases n with
    | leaf tag shape =>
      refine ⟨Drawing.isFair_single (blamesEmpty_ok _), iff_of_false (not_fails_ok _) ?_⟩
      rw [Node.somewhere_iff]
      rintro (h | ⟨c, hc, -⟩)
      · exact h
      · cases hc
    | compose tag op operands =>
      refine fails_of_follows Iff.rfl rfl (fun hfair => ?_) ih
      rw [Node.draw, drawAll_eq_map]
      exact Drawing.follows_compose tag op (List.forall_mem_map.mpr hfair)
    | part tag members =>
      refine fails_of_follows Iff.rfl rfl (fun hfair => ?_) ih
      obtain ⟨name, children, holes, misc, finish⟩ := members
      have hlisted := listed_drawSlots tag ⟨name, children, holes, misc, finish⟩
      rw [← hlisted]
      refine Drawing.follows_part tag here ?_
      rw [hlisted]
      exact List.forall_mem_map.mpr hfair
    | apply tag op children =>
      cases op with
      | slide offset =>
        rw [Node.draw, Node.somewhere_iff]
        split
        next hnone =>
          obtain rfl := List.isEmpty_iff.mp hnone
          exact ⟨Drawing.isFair_single (blamesEmpty_error _),
            iff_of_true (fails_error _) (.inl rfl)⟩
        next =>
          obtain ⟨hfair, hfails⟩ := Drawing.fails_slide tag offset (leavesOfAll children)
          refine ⟨hfair, hfails.trans (or_iff_left ?_).symm⟩
          rintro ⟨c, hc, -⟩
          cases hc
      | _ =>
        refine fails_of_follows Iff.rfl rfl (fun hfair => ?_) ih
        rw [← drawAll_eq_map]
        refine Drawing.follows_apply tag _ ?_
        rw [drawAll_eq_map]
        exact List.forall_mem_map.mpr hfair

end Trees

/-! ## §5. The source text of a tree. -/

/-- **A tree fails to be drawn iff a node that is drawn shows nothing.** In a tree without
finishes that is a composite of nothing outside of slides, or a slide over no leaf; and
whatever the fault is, it is an empty composite. -/
theorem source_fails_iff {n : Node Float} (h : n.Everywhere Node.subnodes Node.HasNoFinish)
    (format : Format) :
    ((∃ fault, n.source format = .error fault) ↔ n.Somewhere Node.drawn Node.ShowsNothing) ∧
      ∀ fault, n.source format = .error fault → ∃ name, fault = .emptyComposite name := by
  obtain ⟨hfair, hfails⟩ := fails_draw h
  exact ⟨fails_map.trans hfails, hfair.alone.map _⟩

/-! Slides over a block, beside which there is a union of nothing, and over a part that is
only a hole. -/

/-- A block beside a union of nothing, moved along the X axis. -/
def gapBesideBlock : Node Float :=
  .apply {} (.slide ⟨1, 0, 0⟩) [.leaf {} (.cube ⟨1, 1, 1⟩), .compose {} .union []]

/-- A bore with nothing around it. -/
def bore : Part Float where
  name := "Bore"
  holes := [⟨none, .leaf {} (.cylinder 1 1 none 8)⟩]

/-- A bore, moved along the X axis. -/
def movedBore : Node Float := .apply {} (.slide ⟨1, 0, 0⟩) [.part {} bore]

theorem hasNoFinish_movedBore : movedBore.Everywhere Node.subnodes Node.HasNoFinish := by
  repeat' first
    | exact trivial
    | exact rfl
    | exact List.forall_mem_nil _
    | refine .intro ?_ ?_
    | refine List.forall_mem_cons.mpr ⟨?_, ?_⟩

theorem source_fails_iff_movedBore :
    movedBore.Everywhere Node.subnodes Node.HasNoFinish ∧
      ((∃ fault, movedBore.source {} = .error fault) ↔
        movedBore.Somewhere Node.drawn Node.ShowsNothing) ∧
      movedBore.Somewhere Node.drawn Node.ShowsNothing :=
  ⟨hasNoFinish_movedBore, (source_fails_iff hasNoFinish_movedBore {}).1, .here rfl⟩

/-- **Below a slide, an empty composite is neither needed for a failure nor enough for
one.** -/
theorem failure_below_slide :
    (gapBesideBlock.Everywhere Node.subnodes Node.HasNoFinish ∧
        gapBesideBlock.Somewhere Node.subnodes Node.IsEmpty ∧
        ∃ text, gapBesideBlock.source {} = .ok text) ∧
      movedBore.Everywhere Node.subnodes Node.HasNoFinish ∧
        ¬ movedBore.Somewhere Node.subnodes Node.IsEmpty ∧
        movedBore.source {} = .error (.emptyComposite "union") := by
  refine ⟨⟨?_, ?_, _, rfl⟩, hasNoFinish_movedBore, ?_, rfl⟩
  · repeat' first
      | exact trivial
      | exact List.forall_mem_nil _
      | refine .intro ?_ ?_
      | refine List.forall_mem_cons.mpr ⟨?_, ?_⟩
  · exact .there (.tail _ (.head _)) (.here rfl)
  · rintro (h | ⟨hpart, h | ⟨hhole, h | ⟨hnone, -⟩⟩⟩)
    · cases h
    · cases List.mem_singleton.mp hpart
      cases h
    · cases List.mem_singleton.mp hpart
      cases List.mem_singleton.mp hhole
      exact h
    · cases List.mem_singleton.mp hpart
      cases List.mem_singleton.mp hhole
      cases hnone

end SolidTree
