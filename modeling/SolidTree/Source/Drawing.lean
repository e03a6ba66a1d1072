/-
  SolidTree.Source.Drawing
  ────────────────────────
  **FROM TREES TO STATEMENTS.**

  Every node is drawn from what is drawn of the nodes below it, so drawing is
  one pass over the tree.  A `Drawing` holds the statement of a node and, in
  case the node is the only operand of a block, what it puts there: a plain
  union puts its own operands there, any other node its statement.

      leaf      — a call
      operator  — a call over its child, or over a block of its children
      slide     — for each leaf, the hull of the leaf and its moved copy
      set       — a call with a block; a union of one node is that node
      part      — its arranged members, under its finish

  The only failures are composites of nothing and unfit operands of a finish.
-/
import SolidTree.Source.Statement
import SolidTree.Tree.Leaves
import SolidTree.Tree.Part

namespace SolidTree

variable {α : Type}

/-! ## §1. Drawings. -/

/-- A statement, or why there is none. -/
abbrev Drawn (α : Type) := Except (Fault α) (Statement α)

/-- What is drawn of a node. -/
structure Drawing (α : Type) where
  /-- The node as one statement. -/
  alone : Drawn α
  /-- What the node puts into a block that holds nothing else. -/
  items : List (Drawn α)

namespace Drawing

/-- A drawing that puts its one statement into a block. -/
def single (s : Drawn α) : Drawing α := ⟨s, [s]⟩

/-- The statements of a block around some operands, or the first fault among them. -/
def block (operands : List (Drawing α)) : Except (Fault α) (List (Statement α)) :=
  match operands with
  | [only] => only.items.mapM id
  | _ => operands.mapM Drawing.alone

/-- A call over one operand, or over a block of several. -/
def apply (tag : Tag) (op : Operator α) (operands : List (Drawing α)) : Drawing α :=
  let head : Head α := { modifier := tag.modifier, name := op.name, arguments := op.arguments }
  let statement : Drawn α := match operands with
    | [] => .error (.emptyComposite op.name)
    | [only] => only.alone.map (.over head)
    | _ => (block operands).map (.block head .nextLine)
  single (statement.map (·.underComment tag.comment))

/-- A call with a block of operands. A union of one operand is that operand, unless it
has a modifier to show. -/
def compose (tag : Tag) (op : SetOperation) (operands : List (Drawing α)) : Drawing α :=
  let head : Head α := { modifier := tag.modifier, name := op.name }
  let group : Drawn α := match operands with
    | [] => .error (.emptyComposite op.name)
    | _ => (block operands).map (.block head .sameLine)
  let statement : Drawn α := match op, tag.modifier, operands with
    | .union, .none, [only] => only.alone
    | _, _, _ => group
  let alone := statement.map (·.underComment tag.comment)
  if op = .union ∧ tag.isPlain ∧ operands ≠ [] then ⟨alone, operands.map Drawing.alone⟩
  else single alone

end Drawing

/-! ## §2. Sweeps of leaves. -/

/-- A leaf as a statement. -/
def Leaf.call (leaf : Leaf α) : Statement α :=
  Statement.call
    { modifier := leaf.tag.modifier, name := leaf.shape.name, arguments := leaf.shape.arguments }
  |>.underComment leaf.tag.comment

/-- A call of an operator over a statement. -/
def Operator.over (op : Operator α) (s : Statement α) : Statement α :=
  .over { name := op.name, arguments := op.arguments } s

/-- The hull around two statements. -/
def hullOfTwo (s t : Statement α) : Statement α :=
  .block { name := "hull" } .nextLine [s, t]

variable [Scalar α]

/-- The statement of `inner` under some operators, the outermost one first, and moved
by an offset if there is one. The offset joins a translation that is outermost,
and a slide draws what it moves twice. -/
def drawChain (inner : Statement α) : List (Operator α) → (moved : Option (Vec3 α)) → Statement α
  | [], none => inner
  | [], some v => (Operator.translate v).over inner
  | op :: rest, moved =>
    match op, moved with
    | .translate w, some v => (Operator.translate (v + w)).over (drawChain inner rest none)
    | _, _ =>
      let still := match op with
        | .slide v =>
          hullOfTwo (drawChain inner rest none)
            (drawChain inner rest (if v.isZero then none else some v))
        | _ => op.over (drawChain inner rest none)
      match moved with
      | none => still
      | some v => (Operator.translate v).over still

/-- The hull of a leaf and of its copy moved by `offset`. -/
def Leaf.swept (leaf : Leaf α) (offset : Vec3 α) : Statement α :=
  drawChain leaf.call (.slide offset :: leaf.operators) none

/-- The sweep of some leaves, which are all that the children of a slide show. -/
def Drawing.slide (tag : Tag) (offset : Vec3 α) (leaves : List (Leaf α)) : Drawing α :=
  .single (compose tag .union (leaves.map fun leaf => .single (.ok (leaf.swept offset)))).alone

/-! ## §3. Parts. -/

/-- The arranged members of a part under its finish. -/
def Drawing.finished (tag : Tag) (finish : Option Finish) (op : SetOperation)
    (operands : List (Drawing α)) : Drawing α :=
  let underOperator (operator : Operator α) : Drawing α :=
    match op with
    | .union => .apply tag operator operands
    | _ => .apply tag operator [.compose {} op operands]
  match finish with
  | none | some .asBuilt => .compose tag op operands
  | some (.revolve segments) => underOperator (.revolve 360.0 none segments)
  | some .hullPair =>
    if 1 < operands.length then underOperator .hull
    else .single (.error (.invalidOperand .loneItem))

/-- The drawing of a part whose members are drawn. -/
def Drawing.part (tag : Tag) (members : Assembly (Drawing α)) : Drawing α :=
  match members.arrange (Drawing.compose {}) with
  | none => .single (.error (.emptyComposite ("part " ++ members.name)))
  | some (op, operands) => .single (Drawing.finished tag members.finish op operands).alone

/-! ## §4. Trees. -/

mutual

/-- The drawing of a tree. -/
def Node.draw : Node α → Drawing α
  | .leaf tag shape => .single (.ok (Leaf.call ⟨[], tag, shape⟩))
  | .apply tag (.slide offset) children =>
    if children.isEmpty then .single (.error (.emptyComposite "slide"))
    else .slide tag offset (leavesOfAll children)
  | .apply tag op children => .apply tag op (drawAll children)
  | .compose tag op operands => .compose tag op (drawAll operands)
  | .part tag ⟨name, children, holes, miscellaneous, finish⟩ =>
    .part tag ⟨name, drawSlots children, drawSlots holes, drawSlots miscellaneous, finish⟩

/-- The drawing of each tree of a list. -/
def drawAll : List (Node α) → List (Drawing α)
  | [] => []
  | n :: rest => n.draw :: drawAll rest

/-- The drawing of each member of a list. -/
def drawSlots : List (Slot (Node α)) → List (Slot (Drawing α))
  | [] => []
  | ⟨field, n⟩ :: rest => ⟨field, n.draw⟩ :: drawSlots rest

end

theorem drawAll_eq_map (ns : List (Node α)) : drawAll ns = ns.map Node.draw := by
  induction ns with
  | nil => rfl
  | cons n rest ih => rw [drawAll, ih, List.map_cons]

theorem drawSlots_eq_map (slots : List (Slot (Node α))) :
    drawSlots slots = slots.map fun s => ⟨s.field, s.node.draw⟩ := by
  induction slots with
  | nil => rfl
  | cons s rest ih => rw [drawSlots, ih, List.map_cons]

/-- The statement that a tree is drawn with. -/
def Node.statement (n : Node α) : Except (Fault α) (Statement α) := n.draw.alone

/-- The source text of a tree. -/
def Node.source (n : Node Float) (format : Format) : Except (Fault Float) String :=
  n.statement.map (·.text format)

end SolidTree
