/-
  SolidTree.Tree.Part
  ───────────────────
  **PARTS AND THEIR MEMBERS.**

  A member has a role: it is a structural child, a hole that is cut out of
  the children, or a miscellaneous item that is only shown.  A field names
  at most one member of a part:

      set field m  — takes the place of the member of that field, also when
                     that one has another role

  `Assembly.arrange` puts the members together — children without holes,
  united with the rest — and `Part.geometry` finishes what comes out.
-/
import SolidTree.Text.Snake
import SolidTree.Tree.Placement

namespace SolidTree

/-! ## §1. Members. -/

/-- What a member is to its part. -/
inductive Role where
  | child
  | hole
  | misc
  deriving Repr, DecidableEq

/-- The roles in order. -/
def Role.all : List Role := [.child, .hole, .misc]

/-- A node with the role that it plays in a part. -/
structure Member (α : Type) where
  role : Role
  node : Node α

namespace Assembly

variable {ν : Type}

/-! ## §2. The three lists. -/

/-- The members of a role. -/
def slots (p : Assembly ν) : Role → List (Slot ν)
  | .child => p.children
  | .hole => p.holes
  | .misc => p.miscellaneous

/-- The part with other members of a role. -/
def withSlots (p : Assembly ν) (role : Role) (slots : List (Slot ν)) : Assembly ν :=
  match role with
  | .child => { p with children := slots }
  | .hole => { p with holes := slots }
  | .misc => { p with miscellaneous := slots }

/-- One more member of a role. -/
def push (p : Assembly ν) (role : Role) (slot : Slot ν) : Assembly ν :=
  p.withSlots role (p.slots role ++ [slot])

/-- The part without the members of a field. -/
def removeField (p : Assembly ν) (field : String) : Assembly ν :=
  let others := List.filter fun (slot : Slot ν) => slot.field != some field
  { p with
    children := others p.children
    holes := others p.holes
    miscellaneous := others p.miscellaneous }

/-- The list with the first member of a field replaced; `none` if there is no such
member. -/
def replaceFirst (field : String) (slot : Slot ν) : List (Slot ν) → Option (List (Slot ν))
  | [] => none
  | s :: rest =>
    if s.field = some field then some (slot :: rest)
    else (replaceFirst field slot rest).map (s :: ·)

/-- The part with a member under a field. It takes the place of the one there, in its
list if the roles agree and else at the end of its own. -/
def put (p : Assembly ν) (role : Role) (field : String) (node : ν) : Assembly ν :=
  let slot : Slot ν := ⟨some field, node⟩
  match replaceFirst field slot (p.slots role) with
  | some slots => p.withSlots role slots
  | none => (p.removeField field).push role slot

/-- Structural children and holes change places. -/
def revert (p : Assembly ν) : Assembly ν := { p with children := p.holes, holes := p.children }

/-! ## §3. Arrangement. -/

/-- How the members are put together: a set operation and its operands, of which
some are made by `nest`. A part with nothing but holes shows them as solids. -/
def arrange (nest : SetOperation → List ν → ν) (p : Assembly ν) :
    Option (SetOperation × List ν) :=
  let solidOf (base holes : List ν) : SetOperation × List ν :=
    if holes.isEmpty then (.union, base) else (.difference, nest .union base :: holes)
  match p.children.map (·.node), p.holes.map (·.node), p.miscellaneous.map (·.node) with
  | [], [], [] => none
  | [], holes, [] => some (.union, holes)
  | [], holes, misc => some (solidOf misc holes)
  | children, holes, [] => some (solidOf children holes)
  | children, holes, misc =>
    let solid := solidOf children holes
    some (.union, nest solid.1 solid.2 :: misc)

end Assembly

namespace Assembly

variable {α : Type}

/-! ## §4. Parts. -/

/-- The part with a member under a field. A member that has no comment is commented
with the field. -/
def set (p : Part α) (field : String) (m : Member α) : Part α :=
  let node := match m.node.tag.comment with
    | some _ => m.node
    | none => m.node.withComment field
  p.put m.role field node

/-- The part with one more member, held by no field. -/
def add (p : Part α) (m : Member α) : Part α := p.push m.role ⟨none, m.node⟩

/-- The part with its structural children highlighted. -/
def debugChildren (p : Part α) : Part α :=
  { p with children := p.children.map fun s => { s with node := s.node.withModifier .debug } }

/-- File name of the part, without its extension. -/
def fileName (p : Part α) : String := Snake.ofCamel p.name

variable [Scalar α]

/-- How much wider than the profile the mask of a revolved part is. -/
def maskMargin : α := 0.04

/-- The hole that masks a profile to the left of its center. -/
def mask (p : Part α) : Except (Fault α) (Node α) := do
  let measure := p.extents
  let width ← measure.span .x
  let depth ← measure.span .y
  let centerX ← measure.middle .x
  let centerY ← measure.middle .y
  let square : Node α := .leaf {} (.square (width + maskMargin) (depth + maskMargin))
  square.align ((Alignment.free.edge .right centerX).center .y centerY)

/-- The part becomes a profile that is turned about the Z axis when it is drawn, masked to
the left of its center. What a step has done to the part stays if a later one fails. -/
def revolve : EStateM (Fault α) (Part α) Unit := do
  let part ← get
  let mask ← MonadExcept.ofExcept part.mask
  modify fun p => p.add ⟨.hole, mask⟩
  modify fun p => { p with finish := some (.revolve none) }

/-- A part becomes a profile if it can be masked, and else nothing is done to it. -/
theorem run_revolve (p : Part α) :
    revolve.run p = match p.mask with
      | .ok mask => .ok () { p.add ⟨.hole, mask⟩ with finish := some (.revolve none) }
      | .error fault => .error fault p := by
  unfold revolve
  simp only [EStateM.run_bind, EStateM.run_get]
  cases p.mask with
  | ok mask => rfl
  | error fault => rfl

/-- The part that is revolved, if it can be. -/
def revolved (p : Part α) : Except (Fault α) (Part α) :=
  match revolve.run p with
  | .ok _ q => .ok q
  | .error fault _ => .error fault

/-! ## §5. Geometry. -/

/-- What becomes of geometry that is a set operation on some operands. -/
def finished (finish : Option Finish) (op : SetOperation) (operands : List (Node α)) :
    Except (Fault α) (Node α) :=
  let geometry := Node.compose {} op operands
  match finish with
  | none | some .asBuilt => .ok geometry
  | some (.revolve segments) => .ok (geometry.rotationalExtrude 360.0 none segments)
  | some .hullPair =>
    if 1 < operands.length then .ok geometry.hull else .error (.invalidOperand .loneItem)

/-- The geometry that is drawn for the part. There has to be a member. -/
def geometry (p : Part α) : Except (Fault α) (Node α) :=
  match p.arrange (Node.compose {}) with
  | none => .error (.emptyComposite ("part " ++ p.name))
  | some (op, operands) => finished p.finish op operands

end Assembly

end SolidTree
