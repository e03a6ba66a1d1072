/-
  SolidTree.Proofs.Part.Declarations
  ──────────────────────────────────
  **DECLARED MEMBERS ARE SET MEMBERS.**

  The members of a part type are declared once, collected in a layout, and
  set in each part from there.  A layout replaces a declaration where it
  stands, whatever its role was; a part moves a member that changes its role
  to the end of another list.  So the two ways do not agree step by step, and
  not in the order of the members either.  They agree in what each field
  holds, which is in both of them what it was given last:

      Layout.ofDeclarations ds   — the layout that some declarations make
      p.setAll ds                — the part in which they are set one by one
      ds.reverse.lookup field    — what the field was given last

  Main results:
    * `fields_ofDeclarations`, `lookup_ofDeclarations` — the order of a layout,
      and what it holds
    * `named_setAll`           — what a field names after members were set
    * `replay_ofDeclarations`  — a replayed layout has the members that setting
      them directly gives
-/
import Mathlib.Data.List.Induction
import Mathlib.Data.List.Nodup
import SolidTree.Proofs.Part.Fields

namespace SolidTree

variable {α : Type}

/-! ## §1. What is looked up. -/

section Lookup

variable {β : Type}

theorem lookup_cons_eq (k : String) (entry : String × β) (rest : List (String × β)) :
    (entry :: rest).lookup k = if k = entry.1 then some entry.2 else rest.lookup k := by
  obtain ⟨name, b⟩ := entry
  rw [List.lookup_cons]
  by_cases h : k = name
  · simp [h]
  · have hne : (k == name) = false := beq_eq_false_iff_ne.mpr h
    simp [h, hne]

theorem lookup_eq_none {k : String} {entries : List (String × β)}
    (h : k ∉ entries.map Prod.fst) : entries.lookup k = none := by
  rw [List.lookup_eq_none_iff]
  intro entry hentry
  have hne : k ≠ entry.1 := fun heq => h (heq ▸ List.mem_map_of_mem hentry)
  simpa using hne

/-- Where no field is there twice, the last entry of a field is the first one. -/
theorem lookup_reverse {entries : List (String × β)} (hnodup : (entries.map Prod.fst).Nodup)
    (k : String) : entries.reverse.lookup k = entries.lookup k := by
  induction entries with
  | nil => rfl
  | cons entry rest ih =>
    rw [List.map_cons, List.nodup_cons] at hnodup
    rw [List.reverse_cons, List.lookup_append, ih hnodup.2, lookup_cons_eq, lookup_cons_eq]
    by_cases h : k = entry.1
    · subst h
      simp [lookup_eq_none hnodup.1]
    · simp [h]

end Lookup

/-! ## §2. Layouts. -/

namespace Layout

/-- The layout that some declarations make, one after the other. -/
def ofDeclarations (ds : List (String × Member α)) : Layout α :=
  ds.foldl (fun l d => l.add d.1 d.2) {}

/-- The fields of a layout in order. -/
def fields (l : Layout α) : List String := l.members.map Prod.fst

theorem ofDeclarations_snoc (ds : List (String × Member α)) (d : String × Member α) :
    ofDeclarations (ds ++ [d]) = (ofDeclarations ds).add d.1 d.2 := by
  unfold ofDeclarations
  rw [List.foldl_append]
  rfl

/-- Only a field that is new to a layout is appended. -/
theorem fields_add (l : Layout α) (field : String) (m : Member α) :
    (l.add field m).fields = if field ∈ l.fields then l.fields else l.fields ++ [field] := by
  obtain ⟨members⟩ := l
  show (declare field m members).map Prod.fst = if field ∈ members.map Prod.fst
    then members.map Prod.fst else members.map Prod.fst ++ [field]
  induction members with
  | nil => rfl
  | cons entry rest ih =>
    obtain ⟨name, old⟩ := entry
    unfold declare
    by_cases hname : name = field
    · subst hname
      simp
    · have hfield : field ≠ name := fun h => hname h.symm
      rw [if_neg hname, List.map_cons, ih]
      -- The entry in front is that of another field, and is left where it is.
      by_cases hmem : field ∈ rest.map Prod.fst
      · simp [hmem]
      · simp [hmem, hfield]

/-- A declaration changes what its own field holds. -/
theorem lookup_add (l : Layout α) (field other : String) (m : Member α) :
    (l.add field m).members.lookup other
      = if other = field then some m else l.members.lookup other := by
  obtain ⟨members⟩ := l
  show (declare field m members).lookup other
    = if other = field then some m else members.lookup other
  induction members with
  | nil =>
    show ([(field, m)] : List (String × Member α)).lookup other = _
    rw [lookup_cons_eq]
  | cons entry rest ih =>
    obtain ⟨name, old⟩ := entry
    unfold declare
    by_cases hname : name = field
    · subst hname
      rw [if_pos rfl, lookup_cons_eq, lookup_cons_eq]
      by_cases hother : other = name <;> simp [hother]
    · rw [if_neg hname, lookup_cons_eq, lookup_cons_eq, ih]
      by_cases hother : other = name
      · subst hother
        simp [hname]
      · simp [hother]

/-- **The fields of a layout are distinct, in the order of their first declarations.** -/
theorem fields_ofDeclarations (ds : List (String × Member α)) :
    (ofDeclarations ds).fields = (ds.map Prod.fst).eraseDups ∧
      (ofDeclarations ds).fields.Nodup := by
  induction ds using List.reverseRecOn with
  | nil => exact ⟨rfl, List.nodup_nil⟩
  | append_singleton ds d ih =>
    obtain ⟨horder, hnodup⟩ := ih
    have hmem : d.1 ∈ (ofDeclarations ds).fields ↔ d.1 ∈ ds.map Prod.fst := by
      rw [horder, List.mem_eraseDups]
    rw [ofDeclarations_snoc, fields_add, List.map_append, List.eraseDups_append, ← horder]
    by_cases hold : d.1 ∈ ds.map Prod.fst
    · rw [if_pos (hmem.mpr hold)]
      refine ⟨?_, hnodup⟩
      simp [List.removeAll, hold]
    · have hnew : d.1 ∉ (ofDeclarations ds).fields := fun h => hold (hmem.mp h)
      rw [if_neg hnew]
      constructor
      · simp [List.removeAll, hold, List.eraseDups_cons]
      · rw [← List.concat_eq_append]
        exact hnodup.concat hnew

/-- **A layout holds what was declared last.** -/
theorem lookup_ofDeclarations (ds : List (String × Member α)) (field : String) :
    (ofDeclarations ds).members.lookup field = ds.reverse.lookup field := by
  induction ds using List.reverseRecOn with
  | nil => rfl
  | append_singleton ds d ih =>
    rw [ofDeclarations_snoc, lookup_add, ih, List.reverse_append, List.reverse_singleton,
      List.singleton_append, lookup_cons_eq]

end Layout

/-! ## §3. Members that are set one by one. -/

namespace Assembly

open Slot

/-- The part in which some members are set, one after the other. -/
def setAll (p : Part α) (ds : List (String × Member α)) : Part α :=
  ds.foldl (fun p d => p.set d.1 d.2) p

theorem setAll_snoc (p : Part α) (ds : List (String × Member α)) (d : String × Member α) :
    p.setAll (ds ++ [d]) = (p.setAll ds).set d.1 d.2 := by
  unfold setAll
  rw [List.foldl_append]
  rfl

/-- The slot of a member that is set under a field, in the list of its role alone. -/
def slotsFor (field : String) (role : Role) (m : Member α) : List (Slot (Node α)) :=
  if role = m.role then [⟨some field, m.node.withComment (m.node.tag.comment.getD field)⟩] else []

/-- The lists after a member was set: the field names that member, and the others stay. -/
theorem set_spec {p : Part α} (h : p.FieldsUnique) (field : String) (m : Member α) (role : Role) :
    named field ((p.set field m).slots role) = slotsFor field role m ∧
      others field ((p.set field m).slots role) = others field (p.slots role) := by
  rw [set_eq_put]
  exact put_spec h m.role field _ role

theorem setAll_fieldsUnique {p : Part α} (h : p.FieldsUnique) (ds : List (String × Member α)) :
    (p.setAll ds).FieldsUnique := by
  induction ds using List.reverseRecOn with
  | nil => exact h
  | append_singleton ds d ih =>
    rw [setAll_snoc, set_eq_put]
    exact put_fieldsUnique ih _ _ _

/-- **A field names what was set last.** -/
theorem named_setAll {p : Part α} (h : p.FieldsUnique) (ds : List (String × Member α))
    (field : String) (role : Role) :
    named field ((p.setAll ds).slots role)
      = match ds.reverse.lookup field with
        | some m => slotsFor field role m
        | none => named field (p.slots role) := by
  -- From the end: the last member is set in a part of which the claim holds already.
  induction ds using List.reverseRecOn with
  | nil => rfl
  | append_singleton ds d ih =>
    obtain ⟨hnamed, hothers⟩ := set_spec (setAll_fieldsUnique h ds) d.1 d.2 role
    rw [setAll_snoc, List.reverse_append, List.reverse_singleton, List.singleton_append,
      lookup_cons_eq]
    by_cases hfield : field = d.1
    · subst hfield
      rw [if_pos rfl, hnamed]
    · rw [if_neg hfield, ← ih, ← named_others_of_ne hfield, hothers, named_others_of_ne hfield]

/-- All members of the part are named by fields. -/
def AllNamed (p : Part α) : Prop := ∀ role, ∀ s ∈ p.slots role, s.field ≠ none

theorem setAll_allNamed {p : Part α} (h : p.FieldsUnique) (hnamed : p.AllNamed)
    (ds : List (String × Member α)) : (p.setAll ds).AllNamed := by
  induction ds using List.reverseRecOn with
  | nil => exact hnamed
  | append_singleton ds d ih =>
    intro role s hs hnone
    rw [setAll_snoc] at hs
    -- A slot without a field is not the new one, so it was there before.
    have hother : s ∈ others d.1 (((p.setAll ds).set d.1 d.2).slots role) := by
      unfold others
      rw [List.mem_filter]
      exact ⟨hs, by simp [hnone]⟩
    rw [(set_spec (setAll_fieldsUnique h ds) d.1 d.2 role).2] at hother
    exact ih role s (List.mem_of_mem_filter hother) hnone

/-- Lists of named members in which every field names the same ones have the same members. -/
theorem perm_of_named {ν : Type} {slots more : List (Slot ν)} (hslots : ∀ s ∈ slots, s.field ≠ none)
    (hmore : ∀ s ∈ more, s.field ≠ none) (h : ∀ field, named field slots = named field more) :
    slots.Perm more := by
  classical
  -- Equal slots have the same field, so each is counted among those that its field names.
  rw [List.perm_iff_count]
  intro s
  cases hfield : s.field with
  | none =>
    have hnot : s ∉ slots := fun hs => hslots s hs hfield
    have hnot' : s ∉ more := fun hs => hmore s hs hfield
    rw [List.count_eq_zero_of_not_mem hnot, List.count_eq_zero_of_not_mem hnot']
  | some field =>
    have hs : (s.field == some field) = true := by simp [hfield]
    rw [← List.count_filter (p := fun s => s.field == some field) hs]
    rw [← List.count_filter (p := fun s => s.field == some field) (l := more) hs]
    exact congrArg (List.count s) (h field)

end Assembly

/-! ## §4. Layouts that are replayed. -/

theorem Layout.replay_eq_setAll (l : Layout α) (p : Part α) : l.replay p = p.setAll l.members := rfl

/-- **Declaring members is setting them.** Whatever is declared, in whatever roles and however
often under one field: in a part that was empty the layout gives the members of each role that
setting them directly gives, with the same fields and comments, and it keeps the fields once
each, in the order in which they were declared first. -/
theorem Layout.replay_ofDeclarations (name : String) (ds : List (String × Member α)) :
    (∀ role, (((ofDeclarations ds).replay { name := name }).slots role).Perm
        ((Assembly.setAll { name := name } ds).slots role)) ∧
      (ofDeclarations ds).fields.Nodup ∧
      (ofDeclarations ds).fields = (ds.map Prod.fst).eraseDups := by
  obtain ⟨horder, hnodup⟩ := fields_ofDeclarations ds
  refine ⟨?_, hnodup, horder⟩
  intro role
  have hunique : ({ name := name } : Part α).FieldsUnique := fun _ => Nat.zero_le 1
  have hnamed : ({ name := name } : Part α).AllNamed := by
    intro role s hs
    cases role <;> cases hs
  rw [replay_eq_setAll]
  refine Assembly.perm_of_named (Assembly.setAll_allNamed hunique hnamed _ role)
    (Assembly.setAll_allNamed hunique hnamed _ role) ?_
  intro field
  -- Of distinct fields the last member is the only one, and it is what was declared last.
  rw [Assembly.named_setAll hunique, Assembly.named_setAll hunique, lookup_reverse hnodup,
    lookup_ofDeclarations]

/-! The frame of a rack is a hole in between. The layout keeps it in front, and the part puts it
back behind the shelf. -/

example :
    let ds : List (String × Member ℚ) := [("frame", ⟨.child, Node.cube ⟨1, 1, 1⟩⟩),
      ("shelf", ⟨.child, Node.cube ⟨2, 2, 2⟩⟩), ("frame", ⟨.hole, Node.cube ⟨3, 3, 3⟩⟩),
      ("frame", ⟨.child, Node.cube ⟨4, 4, 4⟩⟩)]
    ((Layout.ofDeclarations ds).replay { name := "Rack" }).children.map (·.field)
        = [some "frame", some "shelf"] ∧
      (Assembly.setAll { name := "Rack" } ds).children.map (·.field)
        = [some "shelf", some "frame"] := by
  decide

end SolidTree
