/-
  SolidTree.Proofs.Part.Fields
  ────────────────────────────
  **A FIELD NAMES ONE MEMBER.**

  A member that is put under a field looks for its predecessor in the list of
  its own role first, and the other two lists are searched only if there is
  none.  That replaces the member of the field whatever its role was, because
  a field never names two members at once — also not in different lists:

      named field slots    — the members of a list that the field names
      others field slots   — the members of a list that it does not name
      p.FieldsUnique       — a field names at most one member of all

  Main results:
    * `put_spec` — what putting a member under a field does to each list
    * `apply_fieldsUnique`, `fieldsUnique_of_assembled` — every edit of a part
      keeps its fields unique, and so do all edits of a part that was built
    * `one_member_per_field` — both together, of a part that was built
-/
import Mathlib.Data.List.Basic
import SolidTree.Number.Rational
import SolidTree.Proofs.Outcome
import SolidTree.Tree.Catalog

namespace SolidTree

/-! ## §1. The members that a field names. -/

namespace Slot

variable {ν : Type}

/-- The members of a list that the field names. -/
def named (field : String) (slots : List (Slot ν)) : List (Slot ν) :=
  slots.filter fun s => s.field == some field

/-- The members of a list that the field does not name. -/
def others (field : String) (slots : List (Slot ν)) : List (Slot ν) :=
  slots.filter fun s => s.field != some field

@[simp] theorem named_append (field : String) (slots more : List (Slot ν)) :
    named field (slots ++ more) = named field slots ++ named field more :=
  List.filter_append _ _

@[simp] theorem others_append (field : String) (slots more : List (Slot ν)) :
    others field (slots ++ more) = others field slots ++ others field more :=
  List.filter_append _ _

theorem named_cons_self {field : String} {slot : Slot ν} (h : slot.field = some field)
    (slots : List (Slot ν)) : named field (slot :: slots) = slot :: named field slots := by
  unfold named
  rw [List.filter_cons_of_pos (by simp [h])]

theorem named_cons_of_ne {field : String} {slot : Slot ν} (h : slot.field ≠ some field)
    (slots : List (Slot ν)) : named field (slot :: slots) = named field slots := by
  unfold named
  rw [List.filter_cons_of_neg (by simpa using h)]

theorem others_cons_self {field : String} {slot : Slot ν} (h : slot.field = some field)
    (slots : List (Slot ν)) : others field (slot :: slots) = others field slots := by
  unfold others
  rw [List.filter_cons_of_neg (by simp [h])]

theorem others_cons_of_ne {field : String} {slot : Slot ν} (h : slot.field ≠ some field)
    (slots : List (Slot ν)) : others field (slot :: slots) = slot :: others field slots := by
  unfold others
  rw [List.filter_cons_of_pos (by simpa using h)]

@[simp] theorem named_others_self (field : String) (slots : List (Slot ν)) :
    named field (others field slots) = [] := by
  unfold named others
  rw [List.filter_filter, List.filter_eq_nil_iff]
  intro s _
  simp

@[simp] theorem others_others_self (field : String) (slots : List (Slot ν)) :
    others field (others field slots) = others field slots := by
  unfold others
  rw [List.filter_filter]
  simp

/-- Another field names the same members among those that the field does not name. -/
theorem named_others_of_ne {field other : String} (h : other ≠ field) (slots : List (Slot ν)) :
    named other (others field slots) = named other slots := by
  unfold named others
  rw [List.filter_filter]
  refine List.filter_congr fun s _ => ?_
  by_cases hs : s.field = some other
  · simp [hs, h]
  · simp [hs]

/-- The first member of the field is replaced, and the members of other fields stay where
they are. -/
theorem replaceFirst_eq_some {field : String} {slot : Slot ν} (hslot : slot.field = some field)
    {slots replaced : List (Slot ν)}
    (h : Assembly.replaceFirst field slot slots = some replaced) :
    (∃ old rest, named field slots = old :: rest ∧ named field replaced = slot :: rest) ∧
      others field replaced = others field slots := by
  induction slots generalizing replaced with
  | nil => cases h
  | cons s rest ih =>
    unfold Assembly.replaceFirst at h
    by_cases hs : s.field = some field
    · rw [if_pos hs] at h
      obtain rfl := Option.some.inj h
      rw [named_cons_self hs, named_cons_self hslot, others_cons_self hs, others_cons_self hslot]
      exact ⟨⟨s, _, rfl, rfl⟩, rfl⟩
    · rw [if_neg hs] at h
      obtain ⟨tail, htail, rfl⟩ := Option.map_eq_some_iff.mp h
      obtain ⟨hnamed, hothers⟩ := ih htail
      rw [named_cons_of_ne hs, named_cons_of_ne hs, others_cons_of_ne hs, others_cons_of_ne hs,
        hothers]
      exact ⟨hnamed, rfl⟩

end Slot

namespace Assembly

/-! ## §2. Fields of a part. -/

section Fields

open Slot

variable {ν : Type}

/-- All members that the field names, whatever their roles. -/
def namedBy (p : Assembly ν) (field : String) : List (Slot ν) :=
  named field (p.children ++ p.holes ++ p.miscellaneous)

/-- A field names at most one member over the three lists. -/
def FieldsUnique (p : Assembly ν) : Prop := ∀ field, (p.namedBy field).length ≤ 1

theorem slots_withSlots (p : Assembly ν) (role other : Role) (slots : List (Slot ν)) :
    (p.withSlots role slots).slots other = if other = role then slots else p.slots other := by
  cases role <;> cases other <;> rfl

theorem slots_removeField (p : Assembly ν) (field : String) (role : Role) :
    (p.removeField field).slots role = others field (p.slots role) := by
  cases role <;> rfl

theorem slots_push (p : Assembly ν) (role other : Role) (slot : Slot ν) :
    (p.push role slot).slots other
      = if other = role then p.slots role ++ [slot] else p.slots other :=
  slots_withSlots p role other _

/-- What a field names is known once it is known list by list. -/
theorem namedBy_congr {p q : Assembly ν} {field other : String}
    (h : ∀ role, named field (p.slots role) = named other (q.slots role)) :
    p.namedBy field = q.namedBy other := by
  have hchildren : named field p.children = named other q.children := h .child
  have hholes : named field p.holes = named other q.holes := h .hole
  have hmiscellaneous : named field p.miscellaneous = named other q.miscellaneous := h .misc
  unfold namedBy
  rw [named_append, named_append, named_append, named_append, hchildren, hholes, hmiscellaneous]

/-- A field that names a member of one role names one, and none of another role. -/
theorem FieldsUnique.named_slots {p : Assembly ν} (h : p.FieldsUnique) {field : String}
    {role : Role} {old : Slot ν} {rest : List (Slot ν)}
    (hrole : named field (p.slots role) = old :: rest) :
    rest = [] ∧ ∀ other, other ≠ role → named field (p.slots other) = [] := by
  have hone := h field
  have hlength := congrArg List.length hrole
  unfold namedBy at hone
  rw [named_append, named_append, List.length_append, List.length_append] at hone
  rw [List.length_cons] at hlength
  constructor
  · rw [← List.length_eq_zero_iff]
    cases role <;> simp only [slots] at hlength <;> omega
  · intro other hother
    rw [← List.length_eq_zero_iff]
    cases role <;> cases other <;> simp only [slots] at hlength ⊢ <;>
      first | omega | exact absurd rfl hother

/-! ## §3. A member is put under a field. -/

/-- **The lists after a member was put under a field.** The field names that member alone,
in the list of its role, and the members that it does not name are as before. -/
theorem put_spec {p : Assembly ν} (h : p.FieldsUnique) (role : Role) (field : String) (node : ν)
    (other : Role) :
    named field ((p.put role field node).slots other)
        = (if other = role then [⟨some field, node⟩] else []) ∧
      others field ((p.put role field node).slots other) = others field (p.slots other) := by
  unfold put
  dsimp only
  split
  next replaced hreplaced =>
    obtain ⟨⟨old, rest, hold, hnew⟩, hothers⟩ := replaceFirst_eq_some rfl hreplaced
    -- The other lists were not searched, but there the field names nothing.
    obtain ⟨rfl, hnone⟩ := h.named_slots hold
    rw [slots_withSlots]
    by_cases hother : other = role
    · rw [if_pos hother, if_pos hother, hother]
      exact ⟨hnew, hothers⟩
    · rw [if_neg hother, if_neg hother]
      exact ⟨hnone other hother, rfl⟩
  next =>
    rw [slots_push, slots_removeField, slots_removeField]
    have hslot : (⟨some field, node⟩ : Slot ν).field = some field := rfl
    by_cases hother : other = role
    · rw [if_pos hother, if_pos hother, hother, named_append, others_append, named_others_self,
        others_others_self, named_cons_self hslot, others_cons_self hslot]
      exact ⟨rfl, List.append_nil _⟩
    · rw [if_neg hother, if_neg hother]
      exact ⟨named_others_self field _, others_others_self field _⟩

theorem put_fieldsUnique {p : Assembly ν} (h : p.FieldsUnique) (role : Role) (field : String)
    (node : ν) : (p.put role field node).FieldsUnique := by
  have hspec := put_spec h role field node
  intro other
  by_cases hother : other = field
  · subst hother
    -- One list holds the new member, and the field names nothing else.
    have hone : (p.put role other node).namedBy other
        = (({ name := "" } : Assembly ν).push role ⟨some other, node⟩).namedBy other := by
      refine namedBy_congr fun r => ?_
      rw [(hspec r).1, slots_push]
      cases r <;> cases role <;> simp [named, slots]
    rw [hone]
    cases role <;> simp [namedBy, named, push, withSlots, slots]
  · have hsame : (p.put role field node).namedBy other = p.namedBy other := by
      refine namedBy_congr fun r => ?_
      rw [← named_others_of_ne hother, (hspec r).2, named_others_of_ne hother]
    rw [hsame]
    exact h other

end Fields

/-! ## §4. Parts of nodes. -/

open Slot

variable {α : Type}

theorem set_eq_put (p : Part α) (field : String) (m : Member α) :
    p.set field m = p.put m.role field (m.node.withComment (m.node.tag.comment.getD field)) := by
  unfold set Node.withComment
  dsimp only
  cases hcomment : m.node.tag.comment with
  | none => rfl
  | some comment =>
    -- A member with a comment of its own is put in as it is.
    have htag : { m.node.tag with comment := some comment } = m.node.tag := by rw [← hcomment]
    rw [Option.getD_some, htag, Node.withTag_tag]

theorem add_fieldsUnique {p : Part α} (h : p.FieldsUnique) (m : Member α) :
    (p.add m).FieldsUnique := by
  intro field
  have hsame : (p.add m).namedBy field = p.namedBy field := by
    refine namedBy_congr fun role => ?_
    unfold add
    rw [slots_push]
    by_cases hrole : role = m.role
    · rw [if_pos hrole, hrole, named_append]
      exact List.append_nil _
    · rw [if_neg hrole]
  rw [hsame]
  exact h field

theorem revert_fieldsUnique {p : Part α} (h : p.FieldsUnique) : p.revert.FieldsUnique := by
  intro field
  have hone := h field
  unfold namedBy at hone ⊢
  unfold revert
  simp only [named_append, List.length_append] at hone ⊢
  omega

theorem debugChildren_fieldsUnique {p : Part α} (h : p.FieldsUnique) :
    p.debugChildren.FieldsUnique := by
  intro field
  have hone := h field
  have hlength : (named field p.debugChildren.children).length
      = (named field p.children).length := by
    unfold debugChildren named
    rw [List.filter_map, List.length_map]
    rfl
  unfold namedBy at hone ⊢
  simp only [named_append, List.length_append, hlength] at hone ⊢
  exact hone

/-! ## §5. Edits. -/

/-- A change of a part by one of its methods. -/
inductive Edit (α : Type) where
  | set (field : String) (m : Member α)
  | add (m : Member α)
  | revert
  | debugChildren
  | revolved

variable [Scalar α]

/-- The part after an edit. A part that cannot be revolved stays as it is. -/
def Edit.apply (p : Part α) : Edit α → Part α
  | .set field m => p.set field m
  | .add m => p.add m
  | .revert => p.revert
  | .debugChildren => p.debugChildren
  | .revolved =>
    match p.revolved with
    | .ok q => q
    | .error _ => p

/-- The part after some edits, one after the other. -/
def edited (p : Part α) (edits : List (Edit α)) : Part α := edits.foldl Edit.apply p

/-- A revolved part has one more hole, which no field names. -/
theorem revolved_eq_ok {p q : Part α} (h : p.revolved = .ok q) :
    ∃ mask, q = { p.add ⟨.hole, mask⟩ with finish := some (.revolve none) } := by
  unfold revolved at h
  rw [run_revolve] at h
  cases hmask : p.mask with
  | error fault =>
    rw [hmask] at h
    cases h
  | ok mask =>
    rw [hmask] at h
    exact ⟨mask, (Except.ok.inj h).symm⟩

/-- **An edit keeps the fields unique.** -/
theorem apply_fieldsUnique {p : Part α} (h : p.FieldsUnique) (e : Edit α) :
    (e.apply p).FieldsUnique := by
  cases e with
  | set field m =>
    show (p.set field m).FieldsUnique
    rw [set_eq_put]
    exact put_fieldsUnique h _ _ _
  | add m => exact add_fieldsUnique h m
  | revert => exact revert_fieldsUnique h
  | debugChildren => exact debugChildren_fieldsUnique h
  | revolved =>
    show (match p.revolved with | .ok q => q | .error _ => p).FieldsUnique
    split
    next q hq =>
      obtain ⟨mask, rfl⟩ := revolved_eq_ok hq
      exact add_fieldsUnique h ⟨.hole, mask⟩
    next => exact h

/-- **Edits keep the fields unique.** -/
theorem edited_fieldsUnique {p : Part α} (h : p.FieldsUnique) (edits : List (Edit α)) :
    (p.edited edits).FieldsUnique := by
  induction edits generalizing p with
  | nil => exact h
  | cons e rest ih => exact ih (apply_fieldsUnique h e)

/-! ## §6. Parts that are built. -/

/-- What a part type does for one part, besides the members that all of its parts share, is
some edits. -/
def InitEdits (t : PartType α) : Prop :=
  ∀ size p q, t.init size p = .ok q → ∃ edits, q = edited p edits

/-- The part is a named one or one of a type, after any edits. -/
inductive Assembled : Part α → Prop where
  | named (name : String) : Assembled { name := name }
  | ofType {t : PartType α} (hinit : InitEdits t) (size : α) {p : Part α}
    (h : t.part size = .ok p) : Assembled p
  | edit {p : Part α} (h : Assembled p) (e : Edit α) : Assembled (e.apply p)

theorem replay_eq_edited (l : Layout α) (p : Part α) :
    l.replay p = p.edited (l.members.map fun entry => .set entry.1 entry.2) := by
  unfold Layout.replay edited
  rw [List.foldl_map]
  rfl

/-- **The fields of a part that was built are unique.** -/
theorem fieldsUnique_of_assembled {p : Part α} (h : Assembled p) : p.FieldsUnique := by
  have hnamed (name : String) : ({ name := name } : Part α).FieldsUnique :=
    fun _ => Nat.zero_le 1
  induction h with
  | named name => exact hnamed name
  | @ofType t hinit size p h =>
    obtain ⟨edits, rfl⟩ := hinit _ _ _ h
    refine edited_fieldsUnique ?_ edits
    -- How the part is finished does not matter to its fields.
    show (t.layout.replay { name := t.name }).FieldsUnique
    rw [replay_eq_edited]
    exact edited_fieldsUnique (hnamed t.name) _
  | edit _ e ih => exact apply_fieldsUnique ih e

/-- Every type of the catalog makes its parts by edits. -/
theorem initEdits_catalog : ∀ t ∈ (Catalog.all : List (PartType α)), InitEdits t := by
  unfold Catalog.all
  simp only [List.forall_mem_cons]
  refine ⟨?motorMount, ?standoff, ?washer, ?pulley, ?rack, ?label, ?pair, List.forall_mem_nil _⟩
  all_goals intro size p q h
  case motorMount =>
    cases h
    exact ⟨[.set "bore" ⟨.hole, .leaf {} (.ofCylinder 10.0 size)⟩], rfl⟩
  case standoff =>
    obtain ⟨body, -, h⟩ := Outcome.bind_eq_ok.mp h
    obtain ⟨bore, -, h⟩ := Outcome.bind_eq_ok.mp h
    cases h
    exact ⟨[.set "body" ⟨.child, body⟩, .set "bore" ⟨.hole, bore⟩], rfl⟩
  case washer =>
    cases h
    exact ⟨[], rfl⟩
  case pulley =>
    refine ⟨[.set "section" ⟨.child, .leaf {} (.square size 6.0)⟩, .revolved], ?_⟩
    have hrevolved : (p.set "section" ⟨.child, .leaf {} (.square size 6.0)⟩).revolved = .ok q := h
    unfold edited
    simp only [List.foldl_cons, List.foldl_nil, Edit.apply, hrevolved]
  case rack =>
    -- A rack without a size is left as it was declared.
    unfold Catalog.rack at h
    dsimp only at h
    split at h
    · cases h
      exact ⟨[.set "frame" ⟨.hole, Node.cube ⟨size, size, size⟩⟩], rfl⟩
    · cases h
      exact ⟨[], rfl⟩
  case label =>
    obtain ⟨raised, -, h⟩ := Outcome.bind_eq_ok.mp h
    cases h
    exact ⟨[.set "text" ⟨.child, raised⟩], rfl⟩
  case pair =>
    cases h
    exact ⟨[.add ⟨.child, (Node.leaf {} (.ofCylinder 2.0 2.0)).translateOn .x size⟩], rfl⟩

/-- **One member for each field.** Over the three lists of a part that was built a field names
at most one member. A member that is set under a field is then the only one that the field
names, in the list of its role and commented with the field unless it has a comment, and the
members that the field does not name stay in their lists, in their order. -/
theorem one_member_per_field {p : Part α} (h : Assembled p) :
    p.FieldsUnique ∧ ∀ (field : String) (m : Member α) (role : Role),
      named field ((p.set field m).slots role)
          = (if role = m.role then
              [⟨some field, m.node.withComment (m.node.tag.comment.getD field)⟩] else []) ∧
        others field ((p.set field m).slots role) = others field (p.slots role) := by
  have hunique := fieldsUnique_of_assembled h
  refine ⟨hunique, fun field m role => ?_⟩
  rw [set_eq_put]
  exact put_spec hunique m.role field _ role

/-! A rack whose frame is declared as a child, set as a hole, and turned inside out. -/

/-- The rack of size three with its children and its holes in each other's place. -/
def reversedRack : Part ℚ :=
  ((Catalog.rack.layout.replay { name := "HTTPServerRack4U", finish := some .asBuilt }).set "frame"
    ⟨.hole, Node.cube ⟨3, 3, 3⟩⟩).revert

theorem assembled_reversedRack : Assembled reversedRack := by
  have hrack : (Catalog.rack : PartType ℚ) ∈ Catalog.all := by simp [Catalog.all]
  exact .edit (.ofType (initEdits_catalog _ hrack) 3 rfl) .revert

/-- A new frame takes the place of the old one, which was a hole and is a child now. -/
theorem one_member_per_field_rack :
    Assembled reversedRack ∧ reversedRack.FieldsUnique ∧
      named "frame" ((reversedRack.set "frame" ⟨.misc, Node.cube ⟨5, 5, 5⟩⟩).slots .misc)
        = [⟨some "frame", (Node.cube ⟨5, 5, 5⟩).withComment "frame"⟩] ∧
      named "frame" ((reversedRack.set "frame" ⟨.misc, Node.cube ⟨5, 5, 5⟩⟩).slots .child) = [] ∧
      others "frame" ((reversedRack.set "frame" ⟨.misc, Node.cube ⟨5, 5, 5⟩⟩).slots .misc)
        = others "frame" (reversedRack.slots .misc) := by
  obtain ⟨hunique, hset⟩ := one_member_per_field assembled_reversedRack
  have hframe := hset "frame" ⟨.misc, Node.cube ⟨5, 5, 5⟩⟩
  exact ⟨assembled_reversedRack, hunique, (hframe .misc).1, (hframe .child).1, (hframe .misc).2⟩

end Assembly

end SolidTree
