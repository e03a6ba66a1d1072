/-
  SolidTree.Proofs.Drawing.Contents
  ─────────────────────────────────
  **DRAWING DOES NOT LOOK INTO STRINGS.**

  Comments and texts are handed from the tree to the statement that is drawn
  of it; drawing asks no more of them than whether a comment is empty.  So
  filling other contents into a tree, `n.filled c`, and drawing it gives the
  statement that was drawn before with the same contents filled in.

  Contents are chosen by what a string was before.  A tree whose strings are
  all different names each of its strings, and other contents can then be
  chosen for one string alone.

  Main result:
    * `statement_filled` — drawing commutes with filling in other contents
-/
import SolidTree.Proofs.Drawing.Arrangement
import SolidTree.Proofs.Outcome

namespace SolidTree

variable {α : Type}

/-! ## §1. Other contents. -/

/-- What is put in the place of the comments and the texts of a tree. An empty comment
is not shown, so it is kept, and no other comment becomes empty. -/
structure Contents where
  comment : String → String
  text : String → String
  comment_eq_empty : ∀ s, comment s = "" ↔ s = ""

variable (c : Contents)

/-- The tag with another comment. -/
def Tag.filled (t : Tag) : Tag := { t with comment := t.comment.map c.comment }

/-- The text with other strings. -/
def TextShape.filled (t : TextShape α) : TextShape α :=
  { t with
    text := c.text t.text
    font := t.font.map c.text
    direction := t.direction.map c.text
    language := t.language.map c.text
    script := t.script.map c.text }

/-- The shape with other strings. -/
def Primitive.filled : Primitive α → Primitive α
  | .text shape => .text (shape.filled c)
  | .imported file convexity layer => .imported (c.text file) convexity (layer.map c.text)
  | shape => shape

/-- The operator with another string. -/
def Operator.filled : Operator α → Operator α
  | .color name alpha => .color (c.text name) alpha
  | op => op

mutual

/-- The tree with other contents. Names of parts and of their fields are not drawn. -/
def Node.filled : Node α → Node α
  | .leaf tag shape => .leaf (tag.filled c) (shape.filled c)
  | .apply tag op children => .apply (tag.filled c) (op.filled c) (filledAll children)
  | .compose tag op operands => .compose (tag.filled c) op (filledAll operands)
  | .part tag ⟨name, children, holes, miscellaneous, finish⟩ =>
    .part (tag.filled c)
      ⟨name, filledSlots children, filledSlots holes, filledSlots miscellaneous, finish⟩

/-- Each tree of a list with other contents. -/
def filledAll : List (Node α) → List (Node α)
  | [] => []
  | n :: rest => n.filled :: filledAll rest

/-- Each member of a list with other contents. -/
def filledSlots : List (Slot (Node α)) → List (Slot (Node α))
  | [] => []
  | ⟨field, n⟩ :: rest => ⟨field, n.filled⟩ :: filledSlots rest

end

/-! ## §2. Statements with other contents. -/

/-- The value with another string. -/
def Value.filled : Value α → Value α
  | .text s => .text (c.text s)
  | v => v

/-- Keys of the arguments that say how a text is aligned. They are no strings of the
tree. -/
def alignmentKeys : List String := ["halign", "valign"]

/-- The argument with another string, unless it is an alignment. -/
def filledEntry (entry : Option String × Value α) : Option String × Value α :=
  if ∃ key ∈ entry.1, key ∈ alignmentKeys then entry else (entry.1, entry.2.filled c)

/-- The arguments with other strings. -/
def Arguments.filled (a : Arguments α) : Arguments α := ⟨a.entries.map (filledEntry c)⟩

/-- What stands before a body, with other comments and other strings. -/
def Head.filled (h : Head α) : Head α :=
  { h with comments := h.comments.map c.comment, arguments := h.arguments.filled c }

mutual

/-- The statement with other contents. -/
def Statement.filled : Statement α → Statement α
  | .call head => .call (head.filled c)
  | .over head operand => .over (head.filled c) operand.filled
  | .block head opening items => .block (head.filled c) opening (filledItems items)

/-- Each statement of a block with other contents. -/
def filledItems : List (Statement α) → List (Statement α)
  | [] => []
  | s :: rest => s.filled :: filledItems rest

end

theorem filledItems_eq_map (ss : List (Statement α)) :
    filledItems c ss = ss.map (Statement.filled c) := by
  induction ss with
  | nil => rfl
  | cons s rest ih => rw [filledItems, ih, List.map_cons]

variable {c}

/-! ## §3. Calls. -/

@[simp] theorem Tag.isPlain_filled (t : Tag) : (t.filled c).isPlain = t.isPlain := by
  obtain ⟨modifier, comment⟩ := t
  cases comment <;> rfl

namespace Arguments

theorem filled_empty : (({} : Arguments α).filled c) = {} := rfl

theorem filled_add {a : Arguments α} {key : String} {v : Value α} (hkey : key ∉ alignmentKeys) :
    (a.add key v).filled c = (a.filled c).add key (v.filled c) := by
  have hentry : filledEntry c (some key, v) = (some key, v.filled c) :=
    if_neg (by simpa using hkey)
  unfold filled add
  rw [List.map_append, List.map_singleton, hentry]

theorem filled_addSome {a : Arguments α} {key : String} {v : Option (Value α)}
    (hkey : key ∉ alignmentKeys) :
    (a.addSome key v).filled c = (a.filled c).addSome key (v.map (Value.filled c)) := by
  cases v with
  | none => rfl
  | some v => exact filled_add hkey

theorem filled_addSome_alignment {a : Arguments α} {key : String} {v : Option (Value α)}
    (hkey : key ∈ alignmentKeys) :
    (a.addSome key v).filled c = (a.filled c).addSome key v := by
  cases v with
  | none => rfl
  | some v =>
    have hentry : filledEntry c (some key, v) = (some key, v) :=
      if_pos ⟨key, rfl, hkey⟩
    unfold filled addSome add
    rw [List.map_append, List.map_singleton, hentry]

end Arguments

theorem TextShape.arguments_filled (t : TextShape α) :
    (t.filled c).arguments = t.arguments.filled c := by
  unfold TextShape.arguments TextShape.filled
  simp (disch := decide) only [Arguments.filled_add, Arguments.filled_addSome,
    Arguments.filled_addSome_alignment, Arguments.filled_empty, Option.map_map]
  rfl

theorem Primitive.name_filled (shape : Primitive α) : (shape.filled c).name = shape.name := by
  cases shape <;> rfl

theorem Primitive.arguments_filled (shape : Primitive α) :
    (shape.filled c).arguments = shape.arguments.filled c := by
  cases shape with
  | text shape => exact shape.arguments_filled
  | cylinder height diameter topDiameter segments => cases topDiameter <;> rfl
  | polygon points paths convexity => cases paths <;> cases convexity <;> rfl
  | imported file convexity layer => cases convexity <;> cases layer <;> rfl
  | _ => rfl

theorem Operator.name_filled (op : Operator α) : (op.filled c).name = op.name := by
  cases op <;> rfl

theorem Operator.arguments_filled (op : Operator α) :
    (op.filled c).arguments = op.arguments.filled c := by
  cases op with
  | linearExtrude height options =>
    obtain ⟨center, convexity, twist, slices, scale⟩ := options
    cases slices <;> rfl
  | rotateExtrude angle convexity segments => cases convexity <;> rfl
  | offset r delta chamfer => cases r <;> cases delta <;> rfl
  | color name alpha => cases alpha <;> rfl
  | _ => rfl

/-! ## §4. Statements. -/

theorem Statement.filled_underComment (s : Statement α) (comment : Option String) :
    (s.underComment comment).filled c = (s.filled c).underComment (comment.map c.comment) := by
  cases comment with
  | none => rfl
  | some comment =>
    have hempty : (c.comment comment).isEmpty = comment.isEmpty := by
      rw [Bool.eq_iff_iff, String.isEmpty_iff, String.isEmpty_iff]
      exact c.comment_eq_empty comment
    unfold underComment
    rw [Option.map_some]
    dsimp only
    rw [hempty, apply_ite (Statement.filled c)]
    cases s <;> rfl

namespace Drawing

/-- The drawing with other contents. -/
def filled (c : Contents) (d : Drawing α) : Drawing α where
  alone := d.alone.map (Statement.filled c)
  items := d.items.map fun item => item.map (Statement.filled c)

theorem filled_single (s : Drawn α) :
    (single s).filled c = single (s.map (Statement.filled c)) := rfl

theorem block_filled (operands : List (Drawing α)) :
    block (operands.map (filled c)) = (block operands).map (filledItems c) := by
  have hitems : filledItems c = List.map (Statement.filled (α := α) c) :=
    funext (filledItems_eq_map c)
  rw [hitems]
  have hitem : ∀ item : Drawn α,
      id (item.map (Statement.filled c)) = (id item).map (Statement.filled c) := fun _ => rfl
  have halone : ∀ d : Drawing α, (d.filled c).alone = d.alone.map (Statement.filled c) :=
    fun _ => rfl
  match operands with
  | [] => rfl
  | [only] => exact Outcome.mapM_map_comm hitem only.items
  | first :: second :: rest => exact Outcome.mapM_map_comm halone (first :: second :: rest)

/-- A call with a block of operands. -/
theorem group_filled (head : Head α) (opening : Opening) (operands : List (Drawing α)) :
    (block (operands.map (filled c))).map (Statement.block (head.filled c) opening)
      = ((block operands).map (Statement.block head opening)).map (Statement.filled c) := by
  rw [block_filled]
  cases block operands <;> rfl

/-- A result under the comment of a tag. -/
theorem commented_filled (tag : Tag) {r r' : Drawn α} (h : r' = r.map (Statement.filled c)) :
    r'.map (·.underComment (tag.filled c).comment)
      = (r.map (·.underComment tag.comment)).map (Statement.filled c) := by
  subst h
  cases r with
  | error fault => rfl
  | ok s => exact congrArg Except.ok (s.filled_underComment tag.comment).symm

theorem apply_filled (tag : Tag) (op : Operator α) (operands : List (Drawing α)) :
    Drawing.apply (tag.filled c) (op.filled c) (operands.map (filled c))
      = (Drawing.apply tag op operands).filled c := by
  unfold Drawing.apply
  rw [filled_single, op.name_filled, op.arguments_filled]
  refine congrArg single (commented_filled tag ?_)
  have hgroup := group_filled (c := c)
    { modifier := tag.modifier, name := op.name, arguments := op.arguments } .nextLine operands
  match operands with
  | [] => rfl
  | [only] =>
    show (only.alone.map _).map _ = (only.alone.map _).map _
    cases only.alone <;> rfl
  | first :: second :: rest => exact hgroup

theorem compose_alone_filled (tag : Tag) (op : SetOperation) (operands : List (Drawing α)) :
    (Drawing.compose (tag.filled c) op (operands.map (filled c))).alone
      = (Drawing.compose tag op operands).alone.map (Statement.filled c) := by
  unfold Drawing.compose
  rw [apply_ite Drawing.alone, single, ite_self, apply_ite Drawing.alone, single, ite_self]
  refine commented_filled tag ?_
  obtain ⟨modifier, comment⟩ := tag
  have hgroup := group_filled (c := c) { modifier := modifier, name := op.name } .sameLine operands
  match operands with
  | [] => cases op <;> cases modifier <;> rfl
  | [only] =>
    -- A union of one operand that has no modifier is that operand, all else is a call.
    cases op <;> cases modifier <;> first | rfl | exact hgroup
  | first :: second :: rest => cases op <;> cases modifier <;> exact hgroup

theorem compose_filled (tag : Tag) (op : SetOperation) (operands : List (Drawing α)) :
    Drawing.compose (tag.filled c) op (operands.map (filled c))
      = (Drawing.compose tag op operands).filled c := by
  have halone := compose_alone_filled (c := c) tag op operands
  -- The same operands are put into a block of their own on both sides.
  have hplain : (op = .union ∧ (tag.filled c).isPlain = true ∧ operands.map (filled c) ≠ [])
      ↔ op = .union ∧ tag.isPlain = true ∧ operands ≠ [] := by
    rw [Tag.isPlain_filled, Ne, List.map_eq_nil_iff]
  by_cases hputs : op = .union ∧ tag.isPlain = true ∧ operands ≠ []
  · unfold Drawing.compose at halone ⊢
    rw [if_pos hputs, if_pos (hplain.mpr hputs)] at halone ⊢
    unfold filled
    rw [Drawing.mk.injEq, List.map_map, List.map_map]
    exact ⟨halone, rfl⟩
  · unfold Drawing.compose at halone ⊢
    rw [if_neg hputs, if_neg (hplain.not.mpr hputs)] at halone ⊢
    exact congrArg single halone

end Drawing

/-! ## §5. Sweeps of leaves. -/

/-- The leaf with other contents. -/
def Leaf.filled (c : Contents) (leaf : Leaf α) : Leaf α where
  operators := leaf.operators.map (Operator.filled c)
  tag := leaf.tag.filled c
  shape := leaf.shape.filled c

theorem Leaf.call_filled (leaf : Leaf α) : (leaf.filled c).call = leaf.call.filled c := by
  unfold Leaf.call
  rw [Statement.filled_underComment]
  unfold Leaf.filled
  rw [leaf.shape.name_filled, leaf.shape.arguments_filled]
  rfl

theorem Operator.over_filled (op : Operator α) (s : Statement α) :
    (op.filled c).over (s.filled c) = (op.over s).filled c := by
  unfold Operator.over
  rw [op.name_filled, op.arguments_filled]
  rfl

/-- An operator that a finish puts over a set operation; it holds no string. -/
theorem Drawing.underOperator_filled (tag : Tag) {operator : Operator α}
    (hoperator : operator.filled c = operator) (op : SetOperation) (operands : List (Drawing α)) :
    (match op with
      | .union => Drawing.apply (tag.filled c) operator (operands.map (Drawing.filled c))
      | _ => .apply (tag.filled c) operator [.compose {} op (operands.map (Drawing.filled c))])
      = Drawing.filled c (match op with
        | .union => .apply tag operator operands
        | _ => .apply tag operator [.compose {} op operands]) := by
  have hone := Drawing.apply_filled (c := c) tag operator [.compose {} op operands]
  rw [hoperator, List.map_singleton, ← Drawing.compose_filled] at hone
  cases op with
  | union =>
    have hall := Drawing.apply_filled (c := c) tag operator operands
    rw [hoperator] at hall
    exact hall
  | _ => exact hone

theorem moved_filled (v : Vec3 α) (s : Statement α) :
    (Operator.translate v).over (s.filled c) = ((Operator.translate v).over s).filled c := rfl

theorem hullOfTwo_filled (s t : Statement α) :
    hullOfTwo (s.filled c) (t.filled c) = (hullOfTwo s t).filled c := rfl

mutual

/-- The leaves of a tree with other contents. -/
theorem Node.leaves_filled : (n : Node α) → (n.filled c).leaves = n.leaves.map (Leaf.filled c)
  | .leaf tag shape => rfl
  | .apply tag op children => by
    rw [Node.filled, Node.leaves, Node.leaves, leavesOfAll_filled children, List.map_map,
      List.map_map]
    rfl
  | .compose tag op operands => leavesOfAll_filled operands
  | .part tag ⟨name, children, holes, miscellaneous, finish⟩ => by
    rw [Node.filled, Node.leaves, Node.leaves, List.map_append, leavesOfSlots_filled children,
      leavesOfSlots_filled miscellaneous]

theorem leavesOfAll_filled : (ns : List (Node α)) →
    leavesOfAll (filledAll c ns) = (leavesOfAll ns).map (Leaf.filled c)
  | [] => rfl
  | n :: rest => by
    rw [filledAll, leavesOfAll, leavesOfAll, List.map_append, n.leaves_filled,
      leavesOfAll_filled rest]

theorem leavesOfSlots_filled : (slots : List (Slot (Node α))) →
    leavesOfSlots (filledSlots c slots) = (leavesOfSlots slots).map (Leaf.filled c)
  | [] => rfl
  | ⟨field, n⟩ :: rest => by
    rw [filledSlots, leavesOfSlots, leavesOfSlots, List.map_append, n.leaves_filled,
      leavesOfSlots_filled rest]

end

section

variable [Scalar α]

/-- What is drawn under operators commutes with filling, operator by operator. -/
theorem drawChain_filled (inner : Statement α) (ops : List (Operator α))
    (moved : Option (Vec3 α)) :
    drawChain (inner.filled c) (ops.map (Operator.filled c)) moved
      = (drawChain inner ops moved).filled c := by
  induction ops generalizing moved with
  | nil => cases moved <;> rfl
  | cons op rest ih =>
    rw [List.map_cons]
    have hover : (op.filled c).over (drawChain (inner.filled c) (rest.map (Operator.filled c)) none)
        = (op.over (drawChain inner rest none)).filled c := by
      rw [ih none, op.over_filled]
    cases op with
    | translate w =>
      cases moved <;> exact (congrArg (Operator.over _) (ih none)).trans (moved_filled _ _)
    | slide v =>
      have hstill := (congrArg₂ hullOfTwo (ih none)
        (ih (if v.isZero then none else some v))).trans (hullOfTwo_filled _ _)
      cases moved with
      | none => exact hstill
      | some u => exact (congrArg (Operator.over _) hstill).trans (moved_filled u _)
    | _ =>
      cases moved with
      | none => exact hover
      | some u => exact (congrArg (Operator.over _) hover).trans (moved_filled u _)

theorem Leaf.swept_filled (leaf : Leaf α) (offset : Vec3 α) :
    (leaf.filled c).swept offset = (leaf.swept offset).filled c := by
  unfold Leaf.swept
  rw [leaf.call_filled]
  exact drawChain_filled leaf.call (.slide offset :: leaf.operators) none

theorem Drawing.slide_filled (tag : Tag) (offset : Vec3 α) (leaves : List (Leaf α)) :
    Drawing.slide (tag.filled c) offset (leaves.map (Leaf.filled c))
      = (Drawing.slide tag offset leaves).filled c := by
  have hleaves : ((leaves.map (Leaf.filled c)).map fun leaf => single (.ok (leaf.swept offset)))
      = (leaves.map fun leaf => single (.ok (leaf.swept offset))).map (Drawing.filled c) := by
    rw [List.map_map, List.map_map]
    refine List.map_congr_left fun leaf _ => ?_
    exact congrArg (fun s => single (.ok s)) (leaf.swept_filled offset)
  unfold Drawing.slide
  rw [hleaves, Drawing.compose_filled]
  rfl

/-! ## §6. Parts. -/

theorem Drawing.finished_filled (tag : Tag) (finish : Option Finish) (op : SetOperation)
    (operands : List (Drawing α)) :
    Drawing.finished (tag.filled c) finish op (operands.map (Drawing.filled c))
      = (Drawing.finished tag finish op operands).filled c := by
  cases finish with
  | none => exact Drawing.compose_filled tag op operands
  | some finish =>
    cases finish with
    | asBuilt => exact Drawing.compose_filled tag op operands
    | revolve segments => exact Drawing.underOperator_filled tag rfl op operands
    | hullPair =>
      unfold Drawing.finished
      dsimp only
      rw [List.length_map, apply_ite (Drawing.filled c)]
      congr 1
      exact Drawing.underOperator_filled tag rfl op operands

theorem Drawing.part_filled (tag : Tag) {members members' : Assembly (Drawing α)}
    (hname : members'.name = members.name) (hfinish : members'.finish = members.finish)
    (hchildren : members'.children.map (·.node)
      = (members.children.map (·.node)).map (Drawing.filled c))
    (hholes : members'.holes.map (·.node) = (members.holes.map (·.node)).map (Drawing.filled c))
    (hmisc : members'.miscellaneous.map (·.node)
      = (members.miscellaneous.map (·.node)).map (Drawing.filled c)) :
    Drawing.part (tag.filled c) members' = (Drawing.part tag members).filled c := by
  have hnest : ∀ op (xs : List (Drawing α)), Drawing.compose {} op (xs.map (Drawing.filled c))
      = (Drawing.compose {} op xs).filled c := fun op xs => Drawing.compose_filled {} op xs
  have harrange := Assembly.arrange_map hnest hchildren hholes hmisc
  unfold Drawing.part
  rw [harrange, hname, hfinish]
  cases members.arrange (Drawing.compose {}) with
  | none => rfl
  | some arranged =>
    obtain ⟨op, operands⟩ := arranged
    show single (Drawing.finished (tag.filled c) _ op (operands.map (Drawing.filled c))).alone = _
    rw [Drawing.finished_filled]
    rfl

/-! ## §7. Trees. -/

mutual

/-- A tree with other contents is drawn as the tree is, with the other contents. -/
theorem Node.draw_filled : (n : Node α) → (n.filled c).draw = n.draw.filled c
  | .leaf tag shape =>
    congrArg (fun s => Drawing.single (.ok s)) (Leaf.call_filled ⟨[], tag, shape⟩)
  | .apply tag op children => by
    have hall := Drawing.apply_filled (c := c) tag op (drawAll children)
    rw [← drawAll_filled children] at hall
    cases op with
    | slide offset =>
      cases children with
      | nil => rfl
      | cons n rest =>
        -- There is a child on both sides, so both are sweeps.
        show Drawing.slide (tag.filled c) offset (leavesOfAll (filledAll c (n :: rest)))
          = (Drawing.slide tag offset (leavesOfAll (n :: rest))).filled c
        rw [leavesOfAll_filled, Drawing.slide_filled]
    | _ => exact hall
  | .compose tag op operands => by
    rw [Node.filled, Node.draw, Node.draw, drawAll_filled operands, Drawing.compose_filled]
  | .part tag ⟨name, children, holes, miscellaneous, finish⟩ =>
    Drawing.part_filled tag rfl rfl (drawSlots_filled children) (drawSlots_filled holes)
      (drawSlots_filled miscellaneous)

theorem drawAll_filled : (ns : List (Node α)) →
    drawAll (filledAll c ns) = (drawAll ns).map (Drawing.filled c)
  | [] => rfl
  | n :: rest => by
    rw [filledAll, drawAll, drawAll, List.map_cons, n.draw_filled, drawAll_filled rest]

theorem drawSlots_filled : (slots : List (Slot (Node α))) →
    (drawSlots (filledSlots c slots)).map (·.node)
      = ((drawSlots slots).map (·.node)).map (Drawing.filled c)
  | [] => rfl
  | ⟨field, n⟩ :: rest => by
    rw [filledSlots, drawSlots, drawSlots]
    rw [List.map_cons, List.map_cons, List.map_cons, n.draw_filled, drawSlots_filled rest]

end

/-- **Drawing commutes with filling in other contents.** The statement of a tree with
other contents is the statement of the tree with the same contents filled in. -/
theorem statement_filled (c : Contents) (n : Node α) :
    (n.filled c).statement = n.statement.map (Statement.filled c) := by
  unfold Node.statement
  rw [n.draw_filled]
  rfl

end

end SolidTree
