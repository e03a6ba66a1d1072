/-
  SolidTree.Proofs.Part.Geometry
  ──────────────────────────────
  **EVERY MEMBER ONCE, IN ITS ROLE.**

  The members of a part are put together without a look at what they are, so
  the geometry of a part is a plan with the members filled in.  A plan is made
  of set operations on members that are left open, and can be read in more
  than one way:

      c.node        — the node that it is, with the nodes of the members
      c.members     — the members that occur in it, as often as they do
      c.points S    — the points that it has if each member `s` has those of `S s`

  All three go through one recursion, `Plan.read`.

  Main results:
    * `geometry_eq_plan`  — the geometry of a part is the node of its plan
    * `plan_arranges`     — which members occur in it, and which points it has
    * `extents_geometry`  — its box is that of the structural children
    * `geometry_arranges` — all of that, of a part without a finish
-/
import Mathlib.Data.List.Perm.Basic
import SolidTree.Number.Rational
import SolidTree.Proofs.Composition.Splicing
import SolidTree.Proofs.Drawing.Arrangement
import SolidTree.Proofs.Meaning.Calls
import SolidTree.Proofs.Outcome
import SolidTree.Proofs.Tree.Readings

namespace SolidTree

/-! ## §1. Plans. -/

/-- Set operations on members that are left open. -/
inductive Plan (ν : Type) where
  | member (m : ν)
  | compose (op : SetOperation) (items : List (Plan ν))

namespace Plan

variable {ν : Type} {β : Type*}

mutual

/-- A plan read from the members up. -/
def read (member : ν → β) (nest : SetOperation → List β → β) : Plan ν → β
  | .member m => member m
  | .compose op items => nest op (readAll member nest items)

/-- The readings of each plan of a list. -/
def readAll (member : ν → β) (nest : SetOperation → List β → β) : List (Plan ν) → List β
  | [] => []
  | c :: rest => c.read member nest :: readAll member nest rest

end

theorem readAll_eq_map (member : ν → β) (nest : SetOperation → List β → β) (cs : List (Plan ν)) :
    readAll member nest cs = cs.map (read member nest) := by
  induction cs with
  | nil => rfl
  | cons c rest ih => rw [readAll, ih, List.map_cons]

theorem read_compose (member : ν → β) (nest : SetOperation → List β → β) (op : SetOperation)
    (items : List (Plan ν)) :
    (compose op items).read member nest = nest op (items.map (read member nest)) := by
  rw [read, readAll_eq_map]

/-- The members that occur in a plan. -/
def members (c : Plan ν) : List ν := c.read (fun m => [m]) fun _ lists => lists.flatten

/-- The points of a plan, by the points of each member. -/
def points {Place : Type*} (S : ν → Set Place) (c : Plan ν) : Set Place :=
  c.read S SetOperation.act

/-- The node of a plan, by the nodes of its members. -/
def node {α : Type} (c : Plan (Slot (Node α))) : Node α := c.read (·.node) (Node.compose {})

theorem members_compose (op : SetOperation) (items : List (Plan ν)) :
    (compose op items).members = items.flatMap members := by
  unfold members
  rw [read_compose, List.flatMap_def]

theorem points_compose {Place : Type*} (S : ν → Set Place) (op : SetOperation)
    (items : List (Plan ν)) : (compose op items).points S = op.act (items.map (points S)) :=
  read_compose S SetOperation.act op items

/-- The members that are alone in their plans occur as they are listed. -/
theorem flatMap_members (ms : List ν) : (ms.map member).flatMap members = ms := by
  induction ms with
  | nil => rfl
  | cons m rest ih =>
    rw [List.map_cons, List.flatMap_cons, ih]
    rfl

theorem map_points {Place : Type*} (S : ν → Set Place) (ms : List ν) :
    (ms.map member).map (points S) = ms.map S := by
  rw [List.map_map]
  rfl

/-- Something without some holes, if there are holes. -/
def solid (base holes : List (Plan ν)) : Plan ν :=
  if holes.isEmpty then compose .union base else compose .difference (compose .union base :: holes)

theorem members_solid (base holes : List (Plan ν)) :
    (solid base holes).members = base.flatMap members ++ holes.flatMap members := by
  cases holes with
  | nil =>
    show (compose .union base).members = _
    rw [members_compose, List.flatMap_nil, List.append_nil]
  | cons hole rest =>
    show (compose .difference (compose .union base :: hole :: rest)).members = _
    rw [members_compose, List.flatMap_cons, members_compose]

theorem points_solid {Place : Type*} (S : ν → Set Place) (base holes : List (Plan ν)) :
    (solid base holes).points S
      = joined (base.map (points S)) \ joined (holes.map (points S)) := by
  cases holes with
  | nil =>
    show (compose .union base).points S = _
    rw [points_compose, SetOperation.act_union, List.map_nil, joined_nil, Set.sdiff_empty]
  | cons hole rest =>
    show (compose .difference (compose .union base :: hole :: rest)).points S = _
    rw [points_compose, List.map_cons, points_compose, SetOperation.act_union]
    rfl

theorem node_compose {α : Type} (op : SetOperation) (items : List (Plan (Slot (Node α)))) :
    (compose op items).node = .compose {} op (items.map node) :=
  read_compose _ _ op items

/-- The holes are subtracted from the union of the rest, which is not a difference itself and so
is not spliced. -/
theorem node_solid {α : Type} (base holes : List (Plan (Slot (Node α)))) :
    (solid base holes).node = if holes.isEmpty then .unionAll (base.map node)
      else (Node.unionAll (base.map node)).subtractAll (holes.map node) := by
  cases holes with
  | nil => exact node_compose .union base
  | cons hole rest =>
    show (compose .difference (compose .union base :: hole :: rest)).node = _
    rw [node_compose, List.map_cons, node_compose]
    rfl

end Plan

/-! ## §2. The plan of a part. -/

namespace Assembly

section Plans

variable {ν : Type}

/-- The part with its members left open. -/
def opened (p : Assembly ν) : Assembly (Plan (Slot ν)) where
  name := p.name
  children := p.children.map fun s => ⟨s.field, .member s⟩
  holes := p.holes.map fun s => ⟨s.field, .member s⟩
  miscellaneous := p.miscellaneous.map fun s => ⟨s.field, .member s⟩
  finish := p.finish

/-- How the members of a part are put together. -/
def plan (p : Assembly ν) : Option (Plan (Slot ν)) :=
  (p.opened.arrange .compose).map fun (op, items) => .compose op items

/-- The plan by the roles that there are members of. -/
theorem plan_eq (p : Assembly ν) :
    p.plan = match p.children, p.miscellaneous, p.holes with
      | [], [], [] => none
      | [], [], holes => some (.compose .union (holes.map .member))
      | [], misc, holes => some (.solid (misc.map .member) (holes.map .member))
      | children, [], holes => some (.solid (children.map .member) (holes.map .member))
      | children, misc, holes => some (.compose .union
          (.solid (children.map .member) (holes.map .member) :: misc.map .member)) := by
  obtain ⟨name, children, holes, misc, finish⟩ := p
  have hopen (slots : List (Slot ν)) :
      (slots.map fun s => (⟨s.field, .member s⟩ : Slot (Plan (Slot ν)))).map (·.node)
        = slots.map .member := by
    rw [List.map_map]
    rfl
  unfold plan arrange opened
  simp only [hopen]
  cases children <;> cases holes <;> cases misc <;> rfl

/-- Nothing is planned only if there is no member. -/
theorem plan_eq_none_iff (p : Assembly ν) :
    p.plan = none ↔ p.children = [] ∧ p.holes = [] ∧ p.miscellaneous = [] := by
  rw [plan_eq]
  obtain ⟨name, children, holes, misc, finish⟩ := p
  cases children <;> cases misc <;> cases holes <;> simp

/-- **A plan has every member once, in its role.** -/
theorem plan_arranges {p : Assembly ν} {c : Plan (Slot ν)} (h : p.plan = some c) :
    c.members.Perm (p.children ++ p.holes ++ p.miscellaneous) ∧
      ∀ {Place : Type} (S : Slot ν → Set Place),
        c.points S = assembled (p.children.map S) (p.holes.map S) (p.miscellaneous.map S) := by
  rw [plan_eq] at h
  obtain ⟨name, children, holes, misc, finish⟩ := p
  dsimp only at h ⊢
  -- The cases are those of the plan: which of the three lists are empty.
  match children, misc, holes with
  | [], [], [] => cases h
  | [], [], hole :: holes =>
    cases h
    constructor
    · rw [Plan.members_compose, Plan.flatMap_members, List.append_nil]
      exact .refl _
    · intro Place S
      rw [Plan.points_compose, Plan.map_points, SetOperation.act_union]
      rfl
  | [], item :: items, holes =>
    cases h
    constructor
    · rw [Plan.members_solid, Plan.flatMap_members, Plan.flatMap_members, List.nil_append]
      exact List.perm_append_comm
    · intro Place S
      rw [Plan.points_solid, Plan.map_points, Plan.map_points]
      rfl
  | child :: children, [], holes =>
    cases h
    constructor
    · rw [Plan.members_solid, Plan.flatMap_members, Plan.flatMap_members, List.append_nil]
    · intro Place S
      rw [Plan.points_solid, Plan.map_points, Plan.map_points]
      show _ = joined _ \ joined _ ∪ joined []
      rw [joined_nil, Set.union_empty]
  | child :: children, item :: items, holes =>
    cases h
    constructor
    · rw [Plan.members_compose, List.flatMap_cons, Plan.members_solid, Plan.flatMap_members,
        Plan.flatMap_members, Plan.flatMap_members]
    · intro Place S
      rw [Plan.points_compose, List.map_cons, Plan.points_solid, SetOperation.act_union,
        joined_cons, Plan.map_points, Plan.map_points, Plan.map_points]
      rfl

end Plans

/-! ## §3. The geometry of a part. -/

variable {α : Type} [Scalar α]

/-- **The geometry of a part is the node of its plan**, unless the part has a finish. -/
theorem geometry_eq_plan {p : Part α} (hfinish : p.finish = none) :
    p.geometry = match p.plan with
      | none => .error (.emptyComposite ("part " ++ p.name))
      | some c => .ok c.node := by
  -- Nodes are arranged as plans are: `arrange` looks at no member.
  have hslots (slots : List (Slot (Node α))) : slots.map (·.node)
      = ((slots.map fun s => (⟨s.field, .member s⟩ : Slot (Plan (Slot (Node α))))).map
          (·.node)).map Plan.node := by
    rw [List.map_map, List.map_map]
    rfl
  have harrange : p.arrange (Node.compose {})
      = (p.opened.arrange .compose).map fun (op, items) => (op, items.map Plan.node) :=
    arrange_map (fun op items => (Plan.node_compose op items).symm) (hslots _) (hslots _)
      (hslots _)
  unfold geometry plan
  rw [harrange, hfinish]
  cases p.opened.arrange .compose with
  | none => rfl
  | some arranged =>
    obtain ⟨op, items⟩ := arranged
    show Except.ok (Node.compose {} op (items.map Plan.node)) = Except.ok (Plan.node _)
    rw [Plan.node_compose]

/-- What holes are cut out of keeps its box. -/
theorem extents_solid (base holes : List (Slot (Node α))) :
    (Plan.solid (base.map .member) (holes.map .member)).node.extents
      = .union (base.map (·.node.extents)) := by
  have hbase : (Node.unionAll ((base.map Plan.member).map Plan.node)).extents
      = .union (base.map (·.node.extents)) := by
    unfold Node.unionAll
    rw [Node.extents_compose, List.map_map, List.map_map]
    rfl
  have hunion : Node.unionAll ((base.map Plan.member).map Plan.node)
      ≠ .compose {} .difference [] := nofun
  rw [Plan.node_solid]
  split
  · exact hbase
  · rw [Node.extents_subtractAll hunion, hbase]

/-- **The box of a part is that of its geometry without the miscellaneous members**, with the
same faults, if there is a structural child. -/
theorem extents_geometry {p : Part α} (hfinish : p.finish = none) (hchildren : p.children ≠ []) :
    ∃ n, ({ p with miscellaneous := [] } : Part α).geometry = .ok n ∧ n.extents = p.extents := by
  obtain ⟨child, children, hsplit⟩ := List.exists_cons_of_ne_nil hchildren
  refine ⟨(Plan.solid (p.children.map .member) (p.holes.map .member)).node, ?_, ?_⟩
  · have hopen : ({ p with miscellaneous := [] } : Part α).finish = none := hfinish
    rw [geometry_eq_plan hopen, plan_eq]
    simp only [hsplit]
  · exact extents_solid p.children p.holes

/-- **A part shows every member once, in its role.** A part without a finish has a geometry iff it
has a member. It is a plan of set operations in which each member occurs as often as the part
holds it, and whatever the members look like, it shows the structural children without the holes,
together with the miscellaneous members; without structural children it shows the miscellaneous
members without the holes, and the holes if there is nothing else. If there is a structural child,
then the geometry without the miscellaneous members reads on every edge what the part does. -/
theorem geometry_arranges {p : Part α} (hfinish : p.finish = none) :
    (Outcome.Fails p.geometry ↔
        p.children = [] ∧ p.holes = [] ∧ p.miscellaneous = []) ∧
      (¬ (p.children = [] ∧ p.holes = [] ∧ p.miscellaneous = []) →
        ∃ c : Plan (Slot (Node α)), p.geometry = .ok c.node ∧
          c.members.Perm (p.children ++ p.holes ++ p.miscellaneous) ∧
          ∀ {Place : Type} (S : Slot (Node α) → Set Place), c.points S
            = assembled (p.children.map S) (p.holes.map S) (p.miscellaneous.map S)) ∧
      (p.children ≠ [] →
        ∃ n, ({ p with miscellaneous := [] } : Part α).geometry = .ok n ∧
          ∀ e, n.extents.get e = p.extents.get e) := by
  have hgeometry := geometry_eq_plan hfinish
  refine ⟨?_, ?_, ?_⟩
  · rw [← plan_eq_none_iff, hgeometry]
    cases p.plan with
    | none => exact iff_of_true (Outcome.fails_error _) rfl
    | some c => exact iff_of_false (Outcome.not_fails_ok _) nofun
  · intro hsome
    rw [← plan_eq_none_iff] at hsome
    obtain ⟨c, hplan⟩ := Option.ne_none_iff_exists'.mp hsome
    rw [hplan] at hgeometry
    exact ⟨c, hgeometry, plan_arranges hplan⟩
  · intro hchildren
    obtain ⟨n, hn, hextents⟩ := extents_geometry hfinish hchildren
    exact ⟨n, hn, fun e => by rw [hextents]⟩

/-! A bracket of two pieces, of which one is a union of its own, with a bore and a lettering. -/

/-- A plate with two feet, and a rib on it. -/
def bracket : Part ℚ where
  name := "Bracket"
  children :=
    [⟨some "plate", .compose {} .union [.leaf {} (.cube ⟨8, 8, 1⟩), .leaf {} (.cube ⟨9, 1, 2⟩)]⟩,
      ⟨none, .leaf {} (.cube ⟨1, 8, 6⟩)⟩]
  holes := [⟨some "bore", .leaf {} (.cylinder 9 2 none 8)⟩]
  miscellaneous := [⟨none, .leaf {} (.text { text := "on", size := 10 })⟩]

/-- The lettering has no right edge, and the box of the bracket has one. -/
theorem geometry_arranges_bracket :
    bracket.finish = none ∧ ¬ Outcome.Fails bracket.geometry ∧
      (∃ c : Plan (Slot (Node ℚ)), bracket.geometry = .ok c.node ∧
        c.members.Perm (bracket.children ++ bracket.holes ++ bracket.miscellaneous) ∧
        ∀ {Place : Type} (S : Slot (Node ℚ) → Set Place), c.points S
          = (joined (bracket.children.map S) \ joined (bracket.holes.map S))
            ∪ joined (bracket.miscellaneous.map S)) ∧
      ∃ n, ({ bracket with miscellaneous := [] } : Part ℚ).geometry = .ok n ∧
        n.extents.get .right = .ok (9 / 2) := by
  have hfinish : bracket.finish = none := rfl
  have hchildren : bracket.children ≠ [] := nofun
  obtain ⟨hfails, hplan, hbox⟩ := geometry_arranges hfinish
  have hsome : ¬ (bracket.children = [] ∧ bracket.holes = [] ∧ bracket.miscellaneous = []) :=
    fun hempty => hchildren hempty.1
  obtain ⟨n, hn, hextents⟩ := hbox hchildren
  have hright : bracket.extents.get .right = .ok (9 / 2) := by decide +kernel
  refine ⟨hfinish, fun hfail => hsome (hfails.mp hfail), hplan hsome, n, hn, ?_⟩
  rw [hextents, hright]

end Assembly

end SolidTree
