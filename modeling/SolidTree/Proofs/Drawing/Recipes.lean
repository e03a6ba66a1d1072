/-
  SolidTree.Proofs.Drawing.Recipes
  ────────────────────────────────
  **DRAWING ONE NODE FROM OTHERS.**

  `Node.draw` is one pass over a tree.  Said of one node at a time, a
  statement comes from the statements of other nodes, and not all of those
  are in the tree:

      leaf      — from none
      operator  — from its children
      slide     — from the union of the hulls of each leaf and its moved copy
      set       — from its operands, or from those of its only operand
      part      — from its geometry, with the members arranged and finished

  A `Recipe` says from which nodes and how.

  Main result:
    * `statement_eq_recipe` — the statement of a node is what its recipe makes
      of the statements of other nodes
-/
import SolidTree.Proofs.Drawing.Arrangement
import SolidTree.Proofs.Tree.Kinds

namespace SolidTree

variable {α : Type}

/-! ## §1. Recipes. -/

/-- How a node is drawn from other nodes. -/
inductive Recipe (α : Type) where
  /-- Not at all. -/
  | fault (why : Fault α)
  | call (head : Head α)
  /-- As a call over a node. -/
  | wrap (head : Head α) (operand : Node α)
  | block (head : Head α) (opening : Opening) (items : List (Node α))
  /-- Just as another node is. -/
  | same (n : Node α)

namespace Recipe

/-- The nodes that are drawn on the way. -/
def needed : Recipe α → List (Node α)
  | .fault _ | .call _ => []
  | .wrap _ operand => [operand]
  | .block _ _ items => items
  | .same n => [n]

/-- The statement, if nodes are drawn by `render`. -/
def follow {m : Type → Type} [Monad m] [MonadExcept (Fault α) m]
    (render : Node α → m (Statement α)) : Recipe α → m (Statement α)
  | .fault why => throw why
  | .call head => return .call head
  | .wrap head operand => return .over head (← render operand)
  | .block head opening items => return .block head opening (← items.mapM render)
  | .same n => render n

section

variable {m : Type → Type} [Monad m] [LawfulMonad m] [MonadExcept (Fault α) m]

theorem follow_wrap (render : Node α → m (Statement α)) (head : Head α) (operand : Node α) :
    (wrap head operand).follow render = Statement.over head <$> render operand :=
  (map_eq_pure_bind _ _).symm

theorem follow_block (render : Node α → m (Statement α)) (head : Head α) (opening : Opening)
    (items : List (Node α)) :
    (block head opening items).follow render
      = Statement.block head opening <$> items.mapM render :=
  (map_eq_pure_bind _ _).symm

end

end Recipe

namespace Node

/-- What the node puts into a block that holds nothing else: a plain union puts its own
operands there. -/
def opened : Node α → List (Node α)
  | .compose tag .union (first :: rest) =>
    if tag.isPlain then first :: rest else [.compose tag .union (first :: rest)]
  | n => [n]

/-- What is put into a block of some nodes. -/
def blockItems : List (Node α) → List (Node α)
  | [only] => only.opened
  | ns => ns

/-- The sweep of the leaves of some nodes along a vector. -/
def sweep [Scalar α] (offset : Vec3 α) (ns : List (Node α)) : Node α :=
  unionAll ((leavesOfAll ns).map fun leaf => hullOf [leaf.toNode, leaf.toNode.translate offset])

/-- How an operator other than a slide is drawn from its children. -/
def operatorRecipe (tag : Tag) (op : Operator α) (children : List (Node α)) : Recipe α :=
  let head : Head α := { modifier := tag.modifier, name := op.name, arguments := op.arguments }
  match children with
  | [] => .fault (.emptyComposite op.name)
  | [only] => .wrap head only
  | _ => .block head .nextLine (blockItems children)

/-- A call with a block of operands. -/
def groupRecipe (tag : Tag) (op : SetOperation) (operands : List (Node α)) : Recipe α :=
  match operands with
  | [] => .fault (.emptyComposite op.name)
  | _ => .block { modifier := tag.modifier, name := op.name } .sameLine (blockItems operands)

/-- How a set operation is drawn from its operands. -/
def setRecipe (tag : Tag) (op : SetOperation) (operands : List (Node α)) : Recipe α :=
  match op, tag.modifier, operands with
  | .union, .none, [only] => .same only
  | _, _, _ => groupRecipe tag op operands

theorem needed_operatorRecipe (tag : Tag) (op : Operator α) (children : List (Node α)) :
    ∀ m ∈ (operatorRecipe tag op children).needed, m ∈ children := by
  intro m hm
  unfold operatorRecipe at hm
  match children with
  | [] => cases hm
  | [only] => exact hm
  | _ :: _ :: _ => exact hm

theorem needed_setRecipe (tag : Tag) (op : SetOperation) (operands : List (Node α)) :
    ∀ m ∈ (setRecipe tag op operands).needed, ∃ c ∈ operands, m = c ∨ m ∈ c.opened := by
  have hgroup : ∀ m ∈ (groupRecipe tag op operands).needed,
      ∃ c ∈ operands, m = c ∨ m ∈ c.opened := by
    intro m hm
    unfold groupRecipe at hm
    match operands with
    | [] => cases hm
    | [only] => exact ⟨only, List.mem_cons_self, .inr hm⟩
    | _ :: _ :: _ => exact ⟨m, hm, .inl rfl⟩
  unfold setRecipe
  split
  · intro m hm
    exact ⟨m, hm, .inl rfl⟩
  · exact hgroup

theorem opened_cases (n : Node α) :
    n.opened = [n] ∨ ∃ tag operands, n = .compose tag .union operands ∧ n.opened = operands := by
  unfold opened
  split
  · split
    · exact .inr ⟨_, _, rfl, rfl⟩
    · exact .inl rfl
  · exact .inl rfl

variable [Scalar α]

/-- How a node is drawn from other nodes, but for its comment. -/
def recipe : Node α → Recipe α
  | .leaf tag shape =>
    .call { modifier := tag.modifier, name := shape.name, arguments := shape.arguments }
  | .apply tag (.slide offset) children =>
    if children.isEmpty then .fault (.emptyComposite "slide")
    else .same ((sweep offset children).withModifier tag.modifier)
  | .apply tag op children => operatorRecipe tag op children
  | .compose tag op operands => setRecipe tag op operands
  | .part tag members =>
    match members.geometry with
    | .error why => .fault why
    | .ok geometry => .same (geometry.withModifier tag.modifier)

end Node

/-! ## §2. Tags and blocks. -/

/-- An empty comment is no comment. -/
theorem comment_after_none (r : Drawn α) (comment : Option String) :
    r.map (·.underComment comment)
      = (r.map (·.underComment none)).map (·.underComment comment) := by
  cases r <;> rfl

namespace Drawing

/-- A comment is all that the tag adds to a set operation besides the modifier. -/
theorem compose_alone_comment (tag : Tag) (op : SetOperation) (operands : List (Drawing α)) :
    (compose tag op operands).alone
      = (compose { modifier := tag.modifier } op operands).alone.map
          (·.underComment tag.comment) := by
  unfold compose
  simp only [apply_ite Drawing.alone, single, ite_self]
  exact comment_after_none _ tag.comment

/-- A comment is all that the tag adds to an operator besides the modifier. -/
theorem apply_alone_comment (tag : Tag) (op : Operator α) (operands : List (Drawing α)) :
    (apply tag op operands).alone
      = (apply { modifier := tag.modifier } op operands).alone.map
          (·.underComment tag.comment) :=
  comment_after_none _ tag.comment

/-- A plain union puts its operands into a block, any other set operation its statement. -/
theorem items_compose (tag : Tag) (op : SetOperation) (operands : List (Drawing α)) :
    (compose tag op operands).items
      = if op = .union ∧ tag.isPlain ∧ operands ≠ [] then operands.map alone
        else [(compose tag op operands).alone] := by
  unfold compose
  by_cases h : op = .union ∧ tag.isPlain = true ∧ operands ≠ []
  · simp only [if_pos h]
  · simp only [if_neg h]
    rfl

end Drawing

section

variable [Scalar α]

theorem Node.recipe_apply (tag : Tag) {op : Operator α} (hop : ∀ v, op ≠ .slide v)
    (children : List (Node α)) :
    (Node.apply tag op children).recipe = operatorRecipe tag op children := by
  cases op with
  | slide v => exact absurd rfl (hop v)
  | _ => rfl

/-- Anything but a slide is drawn from what is drawn of its children. -/
theorem Node.draw_apply (tag : Tag) {op : Operator α} (hop : ∀ v, op ≠ .slide v)
    (children : List (Node α)) :
    (Node.apply tag op children).draw = .apply tag op (children.map Node.draw) := by
  rw [← drawAll_eq_map]
  cases op with
  | slide v => exact absurd rfl (hop v)
  | _ => rfl

theorem Node.draw_compose (tag : Tag) (op : SetOperation) (operands : List (Node α)) :
    (Node.compose tag op operands).draw = .compose tag op (operands.map Node.draw) := by
  rw [← drawAll_eq_map]
  rfl

/-- What a node puts into a block is drawn as the nodes that it puts there. -/
theorem Node.items_draw (n : Node α) : n.draw.items = n.opened.map Node.statement := by
  cases n with
  | leaf tag shape => rfl
  | part tag members =>
    show (Node.part tag members).draw.items = [(Node.part tag members).draw.alone]
    unfold draw Drawing.part
    split <;> rfl
  | apply tag op children =>
    show (Node.apply tag op children).draw.items = [(Node.apply tag op children).draw.alone]
    unfold draw
    cases op with
    | slide v =>
      dsimp only
      split <;> rfl
    | _ => rfl
  | compose tag op operands =>
    rw [draw_compose, Drawing.items_compose, ← draw_compose]
    cases op with
    | difference => rfl
    | intersection => rfl
    | union =>
      cases operands with
      | nil => exact if_neg fun h => h.2.2 rfl
      | cons first rest =>
        by_cases hplain : tag.isPlain = true
        · have hopened : (compose tag .union (first :: rest)).opened = first :: rest := if_pos hplain
          rw [hopened, if_pos ⟨rfl, hplain, List.cons_ne_nil _ _⟩, List.map_map]
          rfl
        · have hopened : (compose tag .union (first :: rest)).opened
              = [compose tag .union (first :: rest)] := if_neg hplain
          rw [hopened, if_neg fun h => hplain h.2.1]
          rfl

/-- A block is drawn from the nodes that are put into it. -/
theorem Drawing.block_draw (ns : List (Node α)) :
    block (ns.map Node.draw) = (Node.blockItems ns).mapM Node.statement := by
  unfold block Node.blockItems
  match ns with
  | [] => rfl
  | [only] =>
    rw [List.map_singleton]
    dsimp only
    rw [only.items_draw, List.mapM_map]
    rfl
  | first :: second :: rest => exact List.mapM_map

/-! ## §3. Sweeps. -/

/-- A translation joins a translation, and no operator of another kind. -/
theorem Node.translate_apply (tag : Tag) (htag : tag.isPlain = true) (v w : Vec3 α)
    (children : List (Node α)) :
    (Node.apply tag (.translate w) children).transform (.translate v)
      = .apply {} (.translate (v + w)) children := by
  have hkind : (Operator.translate v).sameKind (.translate w) = true :=
    (Operator.sameKind_iff _ _).mpr rfl
  unfold transform
  dsimp only
  rw [htag, hkind]
  rfl

theorem Node.translate_apply_of_ne (tag : Tag) {op : Operator α} (hop : ∀ w, op ≠ .translate w)
    (v : Vec3 α) (children : List (Node α)) :
    (Node.apply tag op children).transform (.translate v)
      = .apply {} (.translate v) [.apply tag op children] := by
  have hkind : (Operator.translate v).sameKind op = false := by
    rw [Bool.eq_false_iff, ne_eq, Operator.sameKind_iff]
    cases op with
    | translate w => exact absurd rfl (hop w)
    | _ => nofun
  unfold transform
  dsimp only
  rw [hkind, Bool.and_false]

theorem drawChain_moved {op : Operator α} (hop : ∀ w, op ≠ .translate w) (inner : Statement α)
    (rest : List (Operator α)) (v : Vec3 α) :
    drawChain inner (op :: rest) (some v)
      = (Operator.translate v).over (drawChain inner (op :: rest) none) := by
  cases op with
  | translate w => exact absurd rfl (hop w)
  | _ => rfl

namespace Leaf

/-- The leaf as a tree, moved by an offset if there is one. -/
def shifted (leaf : Leaf α) : Option (Vec3 α) → Node α
  | none => leaf.toNode
  | some v => leaf.toNode.transform (.translate v)

theorem translate_toNode (leaf : Leaf α) (v : Vec3 α) :
    leaf.toNode.translate v = leaf.shifted (if v.isZero then none else some v) := by
  unfold Node.translate
  split <;> rfl

/-- An offset joins the translation that is outermost, or is put over the leaf. -/
theorem shifted_cons (op : Operator α) (rest : List (Operator α)) (tag : Tag)
    (shape : Primitive α) (v : Vec3 α) :
    (∃ w, op = .translate w ∧ shifted ⟨op :: rest, tag, shape⟩ (some v)
        = .apply {} (.translate (v + w)) [toNode ⟨rest, tag, shape⟩]) ∨
      (∀ w, op ≠ .translate w) ∧ shifted ⟨op :: rest, tag, shape⟩ (some v)
        = .apply {} (.translate v) [toNode ⟨op :: rest, tag, shape⟩] := by
  by_cases htranslate : ∃ w, op = .translate w
  · obtain ⟨w, rfl⟩ := htranslate
    exact .inl ⟨w, rfl, Node.translate_apply {} rfl v w _⟩
  · have hop : ∀ w, op ≠ .translate w := not_exists.mp htranslate
    exact .inr ⟨hop, Node.translate_apply_of_ne {} hop v _⟩

omit [Scalar α] in
/-- A leaf under operators has no other leaf. -/
theorem leavesOfAll_toNode (leaf : Leaf α) : leavesOfAll [leaf.toNode] = [leaf] := by
  obtain ⟨ops, tag, shape⟩ := leaf
  induction ops with
  | nil => rfl
  | cons op rest ih =>
    show (leavesOfAll [toNode ⟨rest, tag, shape⟩]).map (·.under op) ++ [] = _
    rw [ih]
    rfl

/-- A leaf under operators is drawn operator by operator. -/
theorem draw_shifted (leaf : Leaf α) (moved : Option (Vec3 α)) :
    (leaf.shifted moved).draw = .single (.ok (drawChain leaf.call leaf.operators moved)) := by
  obtain ⟨ops, tag, shape⟩ := leaf
  induction ops generalizing moved with
  | nil => cases moved <;> rfl
  | cons op rest ih =>
    have hstill : (toNode ⟨op :: rest, tag, shape⟩).draw
        = .single (.ok (drawChain (call ⟨rest, tag, shape⟩) (op :: rest) none)) := by
      cases op with
      | slide w =>
        show Drawing.slide {} w (leavesOfAll [toNode ⟨rest, tag, shape⟩]) = _
        rw [leavesOfAll_toNode]
        rfl
      | _ =>
        show Drawing.apply {} _ [(shifted ⟨rest, tag, shape⟩ none).draw] = _
        rw [ih none]
        rfl
    cases moved with
    | none => exact hstill
    | some v =>
      rcases shifted_cons op rest tag shape v with ⟨w, rfl, hmerged⟩ | ⟨hop, hover⟩
      · rw [hmerged]
        show Drawing.apply {} (.translate (v + w)) [(shifted ⟨rest, tag, shape⟩ none).draw] = _
        rw [ih none]
        rfl
      · rw [hover, drawChain_moved hop]
        show Drawing.apply {} (.translate v) [(toNode ⟨op :: rest, tag, shape⟩).draw] = _
        rw [hstill]
        rfl

/-- The hull of a leaf and its moved copy is drawn as the sweep of the leaf. -/
theorem draw_swept (leaf : Leaf α) (offset : Vec3 α) :
    (Node.hullOf [leaf.toNode, leaf.toNode.translate offset]).draw
      = .single (.ok (leaf.swept offset)) := by
  have hstill : leaf.toNode.draw = _ := leaf.draw_shifted none
  rw [translate_toNode]
  show Drawing.apply {} .hull [leaf.toNode.draw, (leaf.shifted _).draw] = _
  rw [hstill, leaf.draw_shifted]
  rfl

end Leaf

/-- A sweep with a modifier is drawn as a slide. -/
theorem Node.statement_sweep (tag : Tag) (offset : Vec3 α) (ns : List (Node α)) :
    (Drawing.slide tag offset (leavesOfAll ns)).alone
      = ((sweep offset ns).withModifier tag.modifier).statement.map
          (·.underComment tag.comment) := by
  show (Drawing.compose tag .union _).alone = Except.map _ (draw (.compose _ .union _)).alone
  rw [Drawing.compose_alone_comment, draw_compose, List.map_map]
  congr 3
  exact List.map_congr_left fun leaf _ => (leaf.draw_swept offset).symm

/-! ## §4. Parts. -/

/-- An operator over what is drawn of a set operation is drawn as the operator over the set
operation, which hands its operands over if it is a union. -/
theorem Drawing.underOperator_draw (tag : Tag) {operator : Operator α}
    (hoperator : ∀ v, operator ≠ .slide v) (op : SetOperation) {operands : List (Node α)}
    (hne : operands ≠ []) :
    (match op with
      | .union => Drawing.apply tag operator (operands.map Node.draw)
      | _ => .apply tag operator [.compose {} op (operands.map Node.draw)]).alone
      = (((Node.compose {} op operands).transform operator).withModifier
          tag.modifier).statement.map (·.underComment tag.comment) := by
  have hdraw : ∀ ns : List (Node α), (apply tag operator (ns.map Node.draw)).alone
      = ((Node.apply {} operator ns).withModifier tag.modifier).statement.map
          (·.underComment tag.comment) := by
    intro ns
    rw [apply_alone_comment, ← Node.draw_apply _ hoperator]
    rfl
  cases op with
  | union =>
    obtain ⟨first, rest, rfl⟩ := List.exists_cons_of_ne_nil hne
    exact hdraw (first :: rest)
  | difference =>
    rw [← Node.draw_compose]
    exact hdraw [.compose {} .difference operands]
  | intersection =>
    rw [← Node.draw_compose]
    exact hdraw [.compose {} .intersection operands]

/-- A finish of what is drawn is drawn as the finished geometry. -/
theorem Drawing.finished_draw (tag : Tag) (finish : Option Finish) (op : SetOperation)
    {operands : List (Node α)} (hne : operands ≠ []) :
    (Drawing.finished tag finish op (operands.map Node.draw)).alone
      = (Assembly.finished finish op operands).bind fun geometry =>
          (geometry.withModifier tag.modifier).statement.map (·.underComment tag.comment) := by
  have hbuilt : (Drawing.compose tag op (operands.map Node.draw)).alone
      = ((Node.compose {} op operands).withModifier tag.modifier).statement.map
          (·.underComment tag.comment) := by
    rw [compose_alone_comment, ← Node.draw_compose]
    rfl
  cases finish with
  | none => exact hbuilt
  | some finish =>
    cases finish with
    | asBuilt => exact hbuilt
    | revolve segments => exact underOperator_draw tag (by rintro v ⟨⟩) op hne
    | hullPair =>
      unfold Drawing.finished Assembly.finished
      dsimp only
      rw [List.length_map]
      by_cases hpair : 1 < operands.length
      · rw [if_pos hpair, if_pos hpair]
        exact underOperator_draw tag (by rintro v ⟨⟩) op hne
      · rw [if_neg hpair, if_neg hpair]
        rfl

/-- A part is drawn as its geometry. -/
theorem Node.statement_part (tag : Tag) (members : Part α) :
    (Node.part tag members).statement
      = members.geometry.bind fun geometry =>
          (geometry.withModifier tag.modifier).statement.map (·.underComment tag.comment) := by
  have hnest : ∀ op (ns : List (Node α)), Drawing.compose {} op (ns.map Node.draw)
      = (Node.compose {} op ns).draw := fun op ns => (draw_compose {} op ns).symm
  have hslots : ∀ slots : List (Slot (Node α)),
      (drawSlots slots).map (·.node) = (slots.map (·.node)).map Node.draw := by
    intro slots
    rw [drawSlots_eq_map, List.map_map, List.map_map]
    rfl
  have harrange : Assembly.arrange (Drawing.compose {}) ⟨members.name, drawSlots members.children,
        drawSlots members.holes, drawSlots members.miscellaneous, members.finish⟩
      = (members.arrange (Node.compose {})).map fun (op, ns) => (op, ns.map Node.draw) :=
    Assembly.arrange_map hnest (hslots _) (hslots _) (hslots _)
  show (Drawing.part tag _).alone = _
  unfold Drawing.part Assembly.geometry
  rw [harrange]
  cases h : members.arrange (Node.compose {}) with
  | none => rfl
  | some arranged => exact Drawing.finished_draw tag _ arranged.1 (Assembly.arrange_ne_nil h)

/-! ## §5. Statements. -/

namespace Drawing

/-- An operator is drawn from its children as its recipe says. -/
theorem apply_eq_recipe (tag : Tag) (op : Operator α) (children : List (Node α)) :
    (Drawing.apply tag op (children.map Node.draw)).alone
      = ((Node.operatorRecipe tag op children).follow Node.statement).map
          (·.underComment tag.comment) := by
  unfold Node.operatorRecipe
  match children with
  | [] => rfl
  | [only] =>
    dsimp only
    rw [Recipe.follow_wrap]
    rfl
  | first :: second :: rest =>
    dsimp only
    rw [Recipe.follow_block, ← block_draw]
    rfl

theorem group_eq_recipe (tag : Tag) (op : SetOperation) (operands : List (Node α)) :
    (match operands.map Node.draw with
      | [] => .error (.emptyComposite op.name)
      | _ => (block (operands.map Node.draw)).map
        (.block { modifier := tag.modifier, name := op.name } .sameLine) : Drawn α)
      = (Node.groupRecipe tag op operands).follow Node.statement := by
  unfold Node.groupRecipe
  cases operands with
  | nil => rfl
  | cons first rest =>
    dsimp only
    rw [Recipe.follow_block, ← block_draw]
    rfl

/-- A set operation is drawn from its operands as its recipe says. -/
theorem compose_eq_recipe (tag : Tag) (op : SetOperation) (operands : List (Node α)) :
    (Drawing.compose tag op (operands.map Node.draw)).alone
      = ((Node.setRecipe tag op operands).follow Node.statement).map
          (·.underComment tag.comment) := by
  have hgroup := group_eq_recipe tag op operands
  unfold Drawing.compose Node.setRecipe
  simp only [apply_ite Drawing.alone, single, ite_self]
  congr 1
  generalize tag.modifier = modifier at hgroup ⊢
  match op, modifier, operands with
  | .union, .none, [only] => rfl
  | .union, .none, [] | .union, .none, _ :: _ :: _ => exact hgroup
  | .union, .disable, _ | .union, .debug, _ | .union, .background, _ | .union, .root, _ =>
    exact hgroup
  | .difference, _, _ | .intersection, _, _ => exact hgroup

end Drawing

/-- **A statement follows its recipe.** The statement of a node is made, as the recipe of the
node says, from the statements of other nodes, and then commented. -/
theorem Node.statement_eq_recipe (n : Node α) :
    n.statement = (n.recipe.follow Node.statement).map (·.underComment n.tag.comment) := by
  cases n with
  | leaf tag shape => rfl
  | part tag members =>
    rw [statement_part]
    unfold recipe
    dsimp only
    cases members.geometry <;> rfl
  | compose tag op operands =>
    unfold statement
    rw [draw_compose]
    exact Drawing.compose_eq_recipe tag op operands
  | apply tag op children =>
    by_cases hslide : ∃ v, op = .slide v
    · obtain ⟨v, rfl⟩ := hslide
      cases children with
      | nil => rfl
      | cons first rest => exact statement_sweep tag v (first :: rest)
    · have hop : ∀ v, op ≠ .slide v := not_exists.mp hslide
      unfold statement
      rw [draw_apply tag hop, recipe_apply tag hop]
      exact Drawing.apply_eq_recipe tag op children

end

end SolidTree
