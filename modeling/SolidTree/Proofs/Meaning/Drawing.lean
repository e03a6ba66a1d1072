/-
  SolidTree.Proofs.Meaning.Drawing
  ────────────────────────────────
  **A DRAWN TREE MEANS WHAT THE TREE MEANS.**

  A drawing leaves calls out in three places: a union of one operand is
  that operand, a plain union that is alone in a block puts its own operands
  there, and several children of an operator stand in a block without a
  call.  Each is harmless under a union.  Under a difference or an
  intersection the second one is not: what was one operand becomes several.

      Shows V d S     — what `d` draws means the set `S`
      PutsOne V d S   — alone in a block, `d` puts one statement there, of
                        that meaning

  Main results:
    * `statement_meaning` — the program of a tree means what the tree means,
      if no difference and no intersection has a lone plain union of several
      operands under it
    * `meaning_of_lone_union` — without that condition it does not
-/
import SolidTree.Number.Rational
import SolidTree.Proofs.Meaning.Calls
import SolidTree.Proofs.Outcome
import SolidTree.Proofs.Tree.Everywhere

namespace SolidTree

variable {α : Type} {Place : Type*} {V : Vocabulary α Place}

namespace Drawing

/-! ## §1. What a drawing shows. -/

/-- The statement of a drawing, if there is one, means `S`. -/
def Shows (V : Vocabulary α Place) (d : Drawing α) (S : Set Place) : Prop :=
  ∀ s, d.alone = .ok s → s.meaning V = S

/-- Alone in a block the drawing puts one statement there, and that means `S`. -/
def PutsOne (V : Vocabulary α Place) (d : Drawing α) (S : Set Place) : Prop :=
  ∃ item, d.items = [item] ∧ ∀ s, item = .ok s → s.meaning V = S

theorem Shows.putsOne_single {r : Drawn α} {S : Set Place} (h : (single r).Shows V S) :
    (single r).PutsOne V S :=
  ⟨r, rfl, h⟩

theorem shows_failed {fault : Fault α} {S : Set Place} : (single (.error fault)).Shows V S := by
  intro s hs
  cases hs

/-- Operands drawn one by one mean their sets, one by one. -/
theorem meanings_of_alone {operands : List (Drawing α)} {sets : List (Set Place)}
    (h : List.Forall₂ (Shows V) operands sets) {items : List (Statement α)}
    (hitems : (operands.mapM alone : Except (Fault α) _) = .ok items) :
    items.map (·.meaning V) = sets := by
  -- Operands are paired with sets and with statements; the induction walks both pairings.
  have hdrawn := Outcome.mapM_eq_ok.mp hitems
  clear hitems
  induction h generalizing items with
  | nil =>
    cases hdrawn
    rfl
  | cons hshows _ ih =>
    cases hdrawn with
    | cons hs hrest => rw [List.map_cons, hshows _ hs, ih hrest]

/-- The statements of a block mean the sets of its operands, if a lone operand puts one
statement there. -/
theorem meanings_of_block {operands : List (Drawing α)} {sets : List (Set Place)}
    (h : List.Forall₂ (Shows V) operands sets)
    (hone : ∀ d S, operands = [d] → sets = [S] → d.PutsOne V S) {items : List (Statement α)}
    (hitems : block operands = .ok items) : items.map (·.meaning V) = sets := by
  match operands, sets, h with
  | [], _, h => exact meanings_of_alone h hitems
  | _ :: _ :: _, _, h => exact meanings_of_alone h hitems
  | [d], [S], _ =>
    -- A lone operand is not asked for its statement but for what it puts into the block.
    obtain ⟨item, hlone, hitem⟩ := hone d S rfl rfl
    have hputs : (d.items.mapM id : Except (Fault α) _) = .ok items := hitems
    rw [hlone] at hputs
    cases Outcome.mapM_eq_ok.mp hputs with
    | cons hs hrest =>
      cases hrest
      rw [List.map_cons, hitem _ hs, List.map_nil]

/-! ## §2. Operators and set operations. -/

/-- An operator over drawn operands, whether one or a block of several. -/
theorem shows_apply (tag : Tag) (op : Operator α) {operands : List (Drawing α)}
    {sets : List (Set Place)} (h : List.Forall₂ (Shows V) operands sets) :
    (Drawing.apply tag op operands).Shows V (V.apply op sets) := by
  intro s hs
  obtain ⟨bare, hbare, rfl⟩ := Outcome.map_eq_ok.mp hs
  rw [Statement.meaning_underComment]
  match operands, sets, h with
  | [], _, _ => cases hbare
  -- One operand stands right after the call, without a block.
  | [d], [S], .cons hd .nil =>
    obtain ⟨inner, hinner, rfl⟩ := Outcome.map_eq_ok.mp hbare
    show V.read _ [inner.meaning V] = _
    rw [hd _ hinner]
    exact V.read_operator op rfl rfl [S]
  | d :: d' :: rest, sets, h =>
    obtain ⟨items, hitems, rfl⟩ := Outcome.map_eq_ok.mp hbare
    show V.read _ (meaningsOfItems V items) = _
    rw [meaningsOfItems_eq_map, meanings_of_alone h hitems]
    exact V.read_operator op rfl rfl sets

/-- What a set operation without a modifier is drawn as: a union of one operand as that
operand, everything else as a call with a block. -/
theorem compose_alone_eq_ok {tag : Tag} (hmodifier : tag.modifier = .none) {op : SetOperation}
    {operands : List (Drawing α)} {s : Statement α}
    (h : (Drawing.compose tag op operands).alone = .ok s) :
    (∃ (only : Drawing α) (bare : Statement α), op = .union ∧ operands = [only] ∧
      only.alone = .ok bare ∧ s = bare.underComment tag.comment) ∨
    (∃ (head : Head α) (items : List (Statement α)), head.name = op.name ∧
      block operands = .ok items ∧ (op = .union → operands.length ≠ 1) ∧
      s = (Statement.block head .sameLine items).underComment tag.comment) := by
  obtain ⟨modifier, comment⟩ := tag
  cases hmodifier
  unfold Drawing.compose at h
  -- Whether the operands are put into a block does not change the statement.
  rw [apply_ite Drawing.alone, single, ite_self] at h
  obtain ⟨bare, hbare, rfl⟩ := Outcome.map_eq_ok.mp h
  split at hbare
  next _ _ _ only _ => exact .inl ⟨only, bare, rfl, rfl, hbare, rfl⟩
  next hnot =>
    right
    split at hbare
    next => cases hbare
    next hne =>
      obtain ⟨items, hitems, rfl⟩ := Outcome.map_eq_ok.mp hbare
      refine ⟨_, items, rfl, hitems, fun hop hlen => ?_, rfl⟩
      obtain ⟨only, rfl⟩ := List.length_eq_one_iff.mp hlen
      exact hnot only hop rfl rfl

/-- A set operation on drawn operands. Only a union leaves its call out, and then it has
one operand. -/
theorem shows_compose {tag : Tag} (hmodifier : tag.modifier = .none) (op : SetOperation)
    {operands : List (Drawing α)} {sets : List (Set Place)}
    (h : List.Forall₂ (Shows V) operands sets)
    (hone : op ≠ .union → ∀ d S, operands = [d] → sets = [S] → d.PutsOne V S) :
    (Drawing.compose tag op operands).Shows V (op.act sets) := by
  intro s hs
  rcases compose_alone_eq_ok hmodifier hs with
    ⟨only, bare, rfl, rfl, hbare, rfl⟩ | ⟨head, items, hname, hitems, hunion, rfl⟩
  · rw [Statement.meaning_underComment]
    cases h with
    | cons hd hrest =>
      cases hrest
      rw [hd _ hbare, SetOperation.act_singleton]
  · rw [Statement.meaning_underComment]
    show V.read head (meaningsOfItems V items) = _
    rw [V.read_setOperation op hname, meaningsOfItems_eq_map]
    -- A union that is drawn as a call has more than one operand, so none is alone.
    congr 1
    refine meanings_of_block h (fun d S hd hS => ?_) hitems
    refine hone (fun hop => hunion hop ?_) d S hd hS
    rw [hd, List.length_singleton]

/-- A set operation puts one statement into a block of its own, unless it is a plain union
of several operands. -/
theorem putsOne_compose {tag : Tag} {op : SetOperation} {operands : List (Drawing α)}
    {sets : List (Set Place)} (h : List.Forall₂ (Shows V) operands sets)
    (hshows : (Drawing.compose tag op operands).Shows V (op.act sets))
    (hlone : op = .union → tag.isPlain → operands.length < 2) :
    (Drawing.compose tag op operands).PutsOne V (op.act sets) := by
  unfold Drawing.compose at hshows ⊢
  by_cases hplain : op = .union ∧ tag.isPlain = true ∧ operands ≠ []
  · rw [if_pos hplain] at hshows ⊢
    obtain ⟨rfl, htag, hne⟩ := hplain
    match operands, sets, h with
    | [], _, _ => exact absurd rfl hne
    | [d], [S], .cons hd .nil =>
      refine ⟨d.alone, rfl, fun s hs => ?_⟩
      rw [hd s hs, SetOperation.act_singleton]
    | _ :: _ :: rest, _, _ =>
      -- This is the one case in which several statements take the place of one.
      have := hlone rfl htag
      simp only [List.length_cons] at this
      omega
  · rw [if_neg hplain] at hshows ⊢
    exact hshows.putsOne_single

/-! ## §3. Parts. -/

/-- A set operation and its drawn operands together mean a set, and nothing but a union
has fewer than two operands. -/
def Arranged (V : Vocabulary α Place) (result : SetOperation × List (Drawing α))
    (S : Set Place) : Prop :=
  ∃ sets, List.Forall₂ (Shows V) result.2 sets ∧ result.1.act sets = S
    ∧ (result.1 ≠ .union → 2 ≤ result.2.length)

theorem Arranged.shows_compose {result : SetOperation × List (Drawing α)} {S : Set Place}
    (h : Arranged V result S) {tag : Tag} (hmodifier : tag.modifier = .none) :
    (Drawing.compose tag result.1 result.2).Shows V S := by
  obtain ⟨sets, hshows, rfl, hlength⟩ := h
  refine Drawing.shows_compose hmodifier result.1 hshows fun hop d S hd _ => ?_
  have htwo := hlength hop
  rw [hd, List.length_singleton] at htwo
  omega

theorem arranged_union {operands : List (Drawing α)} {sets : List (Set Place)}
    (h : List.Forall₂ (Shows V) operands sets) :
    Arranged V (.union, operands) (joined sets) :=
  ⟨sets, h, SetOperation.act_union sets, fun hop => absurd rfl hop⟩

/-- Some operands without some holes. -/
theorem arranged_solid {base holes : List (Drawing α)} {baseSets holeSets : List (Set Place)}
    (hbase : List.Forall₂ (Shows V) base baseSets)
    (hholes : List.Forall₂ (Shows V) holes holeSets) :
    Arranged V
      (if holes.isEmpty then (.union, base)
        else (.difference, Drawing.compose {} .union base :: holes))
      (joined baseSets \ joined holeSets) := by
  cases hholes with
  | nil =>
    rw [joined_nil, Set.sdiff_empty]
    exact arranged_union hbase
  | cons hhole hrest =>
    have hunion : (Drawing.compose {} .union base).Shows V (joined baseSets) :=
      (arranged_union hbase).shows_compose rfl
    refine ⟨_, .cons hunion (.cons hhole hrest), rfl, fun _ => ?_⟩
    simp only [List.isEmpty_cons, Bool.false_eq_true, if_false, List.length_cons]
    omega

/-- The arranged members of a part mean what the part means. -/
theorem arranged_arrange {members : Assembly (Drawing α)}
    {childSets holeSets miscSets : List (Set Place)}
    (hchildren : List.Forall₂ (Shows V) (members.children.map (·.node)) childSets)
    (hholes : List.Forall₂ (Shows V) (members.holes.map (·.node)) holeSets)
    (hmisc : List.Forall₂ (Shows V) (members.miscellaneous.map (·.node)) miscSets)
    {result : SetOperation × List (Drawing α)}
    (h : members.arrange (Drawing.compose {}) = some result) :
    Arranged V result (assembled childSets holeSets miscSets) := by
  unfold Assembly.arrange at h
  -- The cases are those of the definition: which of the three lists are empty.
  revert h hchildren hholes hmisc
  generalize members.children.map (·.node) = children
  generalize members.holes.map (·.node) = holes
  generalize members.miscellaneous.map (·.node) = misc
  intro hchildren hholes hmisc h
  cases hchildren with
  | nil =>
    cases hmisc with
    | nil =>
      cases hholes with
      | nil => cases h
      | cons hhole hrest =>
        cases h
        exact arranged_union (.cons hhole hrest)
    | cons hitem hrest =>
      have hsolid := arranged_solid (.cons hitem hrest) hholes
      cases hholes <;> (cases h; exact hsolid)
  | cons hchild hothers =>
    have hsolid := arranged_solid (.cons hchild hothers) hholes
    cases hmisc with
    | nil =>
      cases h
      unfold assembled
      rw [joined_nil, Set.union_empty]
      exact hsolid
    | cons hitem hrest =>
      cases h
      unfold assembled
      rw [← joined_cons]
      exact arranged_union (.cons (hsolid.shows_compose rfl) (.cons hitem hrest))

/-- A part without a finish. -/
theorem shows_part {tag : Tag} (hmodifier : tag.modifier = .none)
    {members : Assembly (Drawing α)} (hfinish : members.finish = none)
    {childSets holeSets miscSets : List (Set Place)}
    (hchildren : List.Forall₂ (Shows V) (members.children.map (·.node)) childSets)
    (hholes : List.Forall₂ (Shows V) (members.holes.map (·.node)) holeSets)
    (hmisc : List.Forall₂ (Shows V) (members.miscellaneous.map (·.node)) miscSets)
    [Scalar α] :
    (Drawing.part tag members).Shows V (assembled childSets holeSets miscSets) := by
  unfold Drawing.part
  cases h : members.arrange (Drawing.compose {}) with
  | none => exact shows_failed
  | some result =>
    rw [hfinish]
    exact (arranged_arrange hchildren hholes hmisc h).shows_compose hmodifier

theorem Shows.putsOne_part {tag : Tag} {members : Assembly (Drawing α)} {S : Set Place}
    [Scalar α] (h : (Drawing.part tag members).Shows V S) :
    (Drawing.part tag members).PutsOne V S := by
  unfold Drawing.part at h ⊢
  generalize members.arrange (Drawing.compose {}) = arranged at h ⊢
  cases arranged with
  | none => exact h.putsOne_single
  | some result => exact h.putsOne_single

end Drawing

/-! ## §4. Trees. -/

namespace Node

/-- The node is drawn as it stands: there is no modifier, no slide and no finish. -/
def IsBare (n : Node α) : Prop :=
  n.tag.modifier = .none ∧
    match n with
    | .apply _ (.slide _) _ => False
    | .part _ members => members.finish = none
    | _ => True

/-- The node is no difference and no intersection whose only operand is a group. -/
def KeepsOperand : Node α → Prop
  | .compose _ op [only] => op = .union ∨ ¬ only.IsGroup
  | _ => True

end Node

section Trees

variable [Scalar α]

theorem shows_drawAll {ns : List (Node α)} (h : ∀ n ∈ ns, n.draw.Shows V (n.meaning V)) :
    List.Forall₂ (Drawing.Shows V) (drawAll ns) (meaningsOfAll V ns) := by
  rw [drawAll_eq_map, meaningsOfAll_eq_map, List.forall₂_map_left_iff,
    List.forall₂_map_right_iff]
  exact List.forall₂_same.mpr h

theorem shows_drawSlots {slots : List (Slot (Node α))}
    (h : ∀ s ∈ slots, s.node.draw.Shows V (s.node.meaning V)) :
    List.Forall₂ (Drawing.Shows V) ((drawSlots slots).map (·.node))
      (meaningsOfSlots V slots) := by
  rw [drawSlots_eq_map, meaningsOfSlots_eq_map, List.map_map, List.forall₂_map_left_iff,
    List.forall₂_map_right_iff]
  exact List.forall₂_same.mpr h

/-- What is drawn of a tree means what the tree means, and anything but a group puts one
statement into a block of its own. -/
theorem shows_draw {n : Node α}
    (h : n.Everywhere Node.subnodes fun n => n.IsBare ∧ n.KeepsOperand) :
    n.draw.Shows V (n.meaning V) ∧ (¬ n.IsGroup → n.draw.PutsOne V (n.meaning V)) := by
  induction h with
  | @intro n here there ih =>
    obtain ⟨⟨hmodifier, hbare⟩, hkeeps⟩ := here
    cases n with
    | leaf tag shape =>
      have hshows : (Node.leaf tag shape).draw.Shows V ((Node.leaf tag shape).meaning V) := by
        intro s hs
        cases hs
        exact Statement.meaning_underComment V _ tag.comment
      exact ⟨hshows, fun _ => hshows.putsOne_single⟩
    | apply tag op children =>
      have hchildren := shows_drawAll fun c hc => (ih c hc).1
      have hshows := Drawing.shows_apply tag op hchildren
      -- Every operator but a slide is drawn by `Drawing.apply`.
      cases op <;> first | exact hbare.elim | exact ⟨hshows, fun _ => hshows.putsOne_single⟩
    | compose tag op operands =>
      have hoperands := shows_drawAll fun c hc => (ih c hc).1
      have hshows := Drawing.shows_compose hmodifier op hoperands fun hop d S hd hS => by
        match operands, hd, hS with
        | [only], hd, hS =>
          -- The operand is no group, so it puts one statement into the block.
          obtain rfl : only.draw = d := (List.cons.inj hd).1
          obtain rfl : only.meaning V = S := (List.cons.inj hS).1
          exact (ih only List.mem_cons_self).2 (hkeeps.resolve_left hop)
      refine ⟨hshows, fun hgroup => Drawing.putsOne_compose hoperands hshows fun hop htag => ?_⟩
      subst hop
      by_contra hlen
      rw [drawAll_eq_map, List.length_map] at hlen
      exact hgroup ⟨htag, not_lt.mp hlen⟩
    | part tag members =>
      -- Members of every role are among the nodes right below.
      have hrole : ∀ slots : List (Slot (Node α)),
          (∀ s ∈ slots, s ∈ members.children ++ members.holes ++ members.miscellaneous) →
          ∀ s ∈ slots, s.node.draw.Shows V (s.node.meaning V) :=
        fun slots hin s hs => (ih s.node (List.mem_map_of_mem (hin s hs))).1
      have hshows : (Node.part tag members).draw.Shows V ((Node.part tag members).meaning V) :=
        Drawing.shows_part hmodifier hbare
          (shows_drawSlots (hrole members.children fun s hs => by simp [hs]))
          (shows_drawSlots (hrole members.holes fun s hs => by simp [hs]))
          (shows_drawSlots (hrole members.miscellaneous fun s hs => by simp [hs]))
      exact ⟨hshows, fun _ => hshows.putsOne_part⟩

/-! ## §5. The program of a tree. -/

/-- **A drawn program means what its tree means.** Whatever the calls stand for: if no
difference and no intersection has a group for its only operand, then the program of a
tree without modifiers, slides and finishes shows the points of the tree. -/
theorem statement_meaning (V : Vocabulary α Place) {n : Node α}
    (hbare : n.Everywhere Node.subnodes Node.IsBare)
    (hkeeps : n.Everywhere Node.subnodes Node.KeepsOperand)
    {s : Statement α} (hs : n.statement = .ok s) :
    s.meaning V = n.meaning V :=
  (shows_draw (hbare.and hkeeps)).1 s hs

end Trees

/-! Two trees over places that are names: every shape shows its own name. -/

/-- Each shape stands for its name, and no operator does anything. -/
def labels : Vocabulary ℚ String where
  shape name _ := {name}
  operator _ _ S := S
  minkowski := joined

/-- A plate with a bore. -/
def plate : Part ℚ where
  name := "Plate"
  children := [⟨none, .leaf {} (.square 4 4)⟩]
  holes := [⟨some "bore", .leaf {} (.circle 1 8)⟩]

/-- What a ball, in a union of its own, and a turned plate on a block have in common. -/
def cutPlate : Node ℚ :=
  .compose {} .intersection
    [.compose {} .union [.leaf {} (.sphere 3 8)],
      .apply {} (.rotate ⟨0, 0, 30⟩) [.leaf {} (.cube ⟨4, 4, 1⟩), .part {} plate]]

/-- What two shapes have in common, if they are given as one union. -/
def loneUnion : Node ℚ :=
  .compose {} .intersection
    [.compose {} .union [.leaf {} (.cube ⟨1, 1, 1⟩), .leaf {} (.sphere 3 8)]]

theorem statement_meaning_cutPlate :
    cutPlate.Everywhere Node.subnodes Node.IsBare ∧
      cutPlate.Everywhere Node.subnodes Node.KeepsOperand ∧
      ∃ s, cutPlate.statement = .ok s ∧ s.meaning labels = cutPlate.meaning labels := by
  have hbare : cutPlate.Everywhere Node.subnodes Node.IsBare := by
    repeat' first
      | exact ⟨rfl, trivial⟩
      | exact ⟨rfl, rfl⟩
      | exact List.forall_mem_nil _
      | refine .intro ?_ ?_
      | refine List.forall_mem_cons.mpr ⟨?_, ?_⟩
  have hkeeps : cutPlate.Everywhere Node.subnodes Node.KeepsOperand := by
    repeat' first
      | exact trivial
      | exact .inl rfl
      | exact List.forall_mem_nil _
      | refine .intro ?_ ?_
      | refine List.forall_mem_cons.mpr ⟨?_, ?_⟩
  exact ⟨hbare, hkeeps, _, rfl, statement_meaning labels hbare hkeeps rfl⟩

/-- **A group alone under an intersection is drawn as something else.** Its operands
become operands of the intersection. -/
theorem meaning_of_lone_union :
    loneUnion.Everywhere Node.subnodes Node.IsBare ∧
      ∃ s, loneUnion.statement = .ok s ∧ s.meaning labels ≠ loneUnion.meaning labels := by
  refine ⟨?_, _, rfl, fun h => ?_⟩
  · repeat' first
      | exact ⟨rfl, trivial⟩
      | exact List.forall_mem_nil _
      | refine .intro ?_ ?_
      | refine List.forall_mem_cons.mpr ⟨?_, ?_⟩
  · -- The cube is in the union but not in the ball.
    have hcube : "cube" ∈ loneUnion.meaning labels := by
      show "cube" ∈ SetOperation.intersection.act [SetOperation.union.act [{"cube"}, {"sphere"}]]
      simp [SetOperation.act_union]
    rw [← h] at hcube
    have hball : "cube" ∈ ({"sphere"} : Set String) := hcube {"sphere"} (.tail _ (.head _))
    exact absurd hball (by decide)

end SolidTree
