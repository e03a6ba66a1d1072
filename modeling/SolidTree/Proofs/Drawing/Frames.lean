/-
  SolidTree.Proofs.Drawing.Frames
  ───────────────────────────────
  **WHAT IS DRAWN AROUND COMMENTS AND TEXTS.**

  The frame of a statement is the statement with nothing in its heads: which
  calls stand over which, and where the blocks are.  It does not depend on
  what the comments and the texts of a tree say, not even on whether a
  comment is empty, while the tree decides where a block is left out by
  whether there is a comment at all.

      n.blanked    — the tree with all of its comments and texts empty
      s.frame      — the statement with nothing in its heads

  Each step of drawing makes the same frame of operands with the same frames,
  so the frame of a tree is that of the blank tree by one induction.

  Main result:
    * `frame_statement_congr` — trees that are the same but for contents have
      the same frame, or fail alike
-/
import SolidTree.Proofs.Drawing.Contents
import SolidTree.Proofs.Drawing.Recipes

namespace SolidTree

variable {α : Type}

/-! ## §1. Blank trees. -/

/-- Every text is empty. -/
def Contents.blank : Contents where
  comment := id
  text := fun _ => ""
  comment_eq_empty := fun _ => Iff.rfl

/-- The tag with an empty comment, if it has one. -/
def Tag.blanked (t : Tag) : Tag := { t with comment := t.comment.map fun _ => "" }

/-- The leaf with empty contents. -/
def Leaf.blanked (leaf : Leaf α) : Leaf α where
  operators := leaf.operators.map (Operator.filled .blank)
  tag := leaf.tag.blanked
  shape := leaf.shape.filled .blank

mutual

/-- The tree with empty contents. Names of parts and of their fields are not drawn. -/
def Node.blanked : Node α → Node α
  | .leaf tag shape => .leaf tag.blanked (shape.filled .blank)
  | .apply tag op children => .apply tag.blanked (op.filled .blank) (blankedAll children)
  | .compose tag op operands => .compose tag.blanked op (blankedAll operands)
  | .part tag ⟨name, children, holes, miscellaneous, finish⟩ =>
    .part tag.blanked
      ⟨name, blankedSlots children, blankedSlots holes, blankedSlots miscellaneous, finish⟩

/-- Each tree of a list with empty contents. -/
def blankedAll : List (Node α) → List (Node α)
  | [] => []
  | n :: rest => n.blanked :: blankedAll rest

/-- Each member of a list with empty contents. -/
def blankedSlots : List (Slot (Node α)) → List (Slot (Node α))
  | [] => []
  | ⟨field, n⟩ :: rest => ⟨field, n.blanked⟩ :: blankedSlots rest

end

theorem blankedAll_eq_map (ns : List (Node α)) : blankedAll ns = ns.map Node.blanked := by
  induction ns with
  | nil => rfl
  | cons n rest ih => rw [blankedAll, ih, List.map_cons]

theorem blankedSlots_eq_map (slots : List (Slot (Node α))) :
    blankedSlots slots = slots.map fun s => ⟨s.field, s.node.blanked⟩ := by
  induction slots with
  | nil => rfl
  | cons s rest ih => rw [blankedSlots, ih, List.map_cons]

theorem Tag.modifier_blanked (t : Tag) : t.blanked.modifier = t.modifier := rfl

theorem Tag.isPlain_blanked (t : Tag) : t.blanked.isPlain = t.isPlain := by
  obtain ⟨modifier, comment⟩ := t
  cases comment <;> rfl

/-- The leaves of a blank tree are the blank leaves of the tree. -/
theorem Node.leaves_blanked (n : Node α) : n.blanked.leaves = n.leaves.map Leaf.blanked := by
  have hlists (ns : List (Node α)) (h : ∀ n ∈ ns, n.blanked.leaves = n.leaves.map Leaf.blanked) :
      (ns.map blanked).flatMap leaves = (ns.flatMap leaves).map Leaf.blanked := by
    rw [List.flatMap_map, List.map_flatMap]
    exact List.flatMap_congr h
  induction Node.everywhere_of_forall (fun _ => trivial) n with
  | @intro n _ _ ih =>
    cases n with
    | leaf tag shape => rfl
    | apply tag op children =>
      rw [blanked, leaves, leaves, leavesOfAll_eq_flatMap, leavesOfAll_eq_flatMap,
        blankedAll_eq_map, hlists children ih, List.map_map, List.map_map]
      rfl
    | compose tag op operands =>
      rw [blanked, leaves, leaves, leavesOfAll_eq_flatMap, leavesOfAll_eq_flatMap,
        blankedAll_eq_map, hlists operands ih]
    | part tag members =>
      obtain ⟨name, children, holes, misc, finish⟩ := members
      have hslots {slots : List (Slot (Node α))}
          (hmem : ∀ s ∈ slots, s ∈ children ++ holes ++ misc) :
          leavesOfSlots (blankedSlots slots) = (leavesOfSlots slots).map Leaf.blanked := by
        rw [leavesOfSlots_eq_flatMap, leavesOfSlots_eq_flatMap, blankedSlots_eq_map,
          List.flatMap_map, List.map_flatMap]
        exact List.flatMap_congr fun s hs => ih s.node (List.mem_map_of_mem (hmem s hs))
      rw [blanked, leaves, leaves, List.map_append, hslots (by simp +contextual),
        hslots (by simp +contextual)]

/-! ## §2. Frames. -/

mutual

/-- The statement with nothing in its heads. -/
def Statement.frame : Statement α → Statement α
  | .call _ => .call { name := "" }
  | .over _ operand => .over { name := "" } operand.frame
  | .block _ opening items => .block { name := "" } opening (framesOf items)

/-- The statements of a block with nothing in their heads. -/
def framesOf : List (Statement α) → List (Statement α)
  | [] => []
  | s :: rest => s.frame :: framesOf rest

end

theorem framesOf_eq_map (ss : List (Statement α)) : framesOf ss = ss.map Statement.frame := by
  induction ss with
  | nil => rfl
  | cons s rest ih => rw [framesOf, ih, List.map_cons]

mutual

theorem Statement.frame_frame : (s : Statement α) → s.frame.frame = s.frame
  | .call _ => rfl
  | .over _ operand => congrArg (Statement.over _) operand.frame_frame
  | .block _ opening items => congrArg (Statement.block _ opening) (framesOf_framesOf items)

theorem framesOf_framesOf : (ss : List (Statement α)) → framesOf (framesOf ss) = framesOf ss
  | [] => rfl
  | s :: rest => congrArg₂ List.cons s.frame_frame (framesOf_framesOf rest)

end

/-- Comments stand in heads. -/
theorem Statement.frame_underComment (s : Statement α) (comment : Option String) :
    (s.underComment comment).frame = s.frame := by
  unfold underComment
  split
  · rfl
  · split
    · rfl
    · cases s <;> rfl

/-- The frame of what is drawn, if anything is. -/
def Drawn.frame (r : Drawn α) : Drawn α := r.map Statement.frame

namespace Drawn

theorem frame_frame (r : Drawn α) : frame (frame r) = frame r := by
  cases r with
  | error fault => rfl
  | ok s => exact congrArg Except.ok s.frame_frame

theorem frame_commented (r : Drawn α) (comment : Option String) :
    frame (r.map (·.underComment comment)) = frame r := by
  cases r with
  | error fault => rfl
  | ok s => exact congrArg Except.ok (s.frame_underComment comment)

theorem frame_over (head : Head α) (r : Drawn α) :
    frame (r.map (.over head)) = (frame r).map (.over { name := "" }) := by
  cases r <;> rfl

/-- A statement is put over what is drawn whatever its head. -/
theorem frame_over_congr {head head' : Head α} {r r' : Drawn α} (h : frame r' = frame r) :
    frame (r'.map (.over head')) = frame (r.map (.over head)) := by
  rw [frame_over, frame_over, h]

end Drawn

namespace Drawing

/-- The frames of a drawing. -/
def frame (d : Drawing α) : Drawing α := ⟨Drawn.frame d.alone, d.items.map Drawn.frame⟩

theorem frame_frame (d : Drawing α) : d.frame.frame = d.frame := by
  unfold frame
  rw [Drawn.frame_frame, List.map_map]
  exact congrArg (mk _) (List.map_congr_left fun item _ => item.frame_frame)

theorem frame_single_congr {r r' : Drawn α} (h : Drawn.frame r' = Drawn.frame r) :
    (single r').frame = (single r).frame :=
  congrArg (fun r => Drawing.mk r [r]) h

variable {operands operands' : List (Drawing α)}

/-- The frames of a block are made of the frames of its operands. -/
theorem frame_block (operands : List (Drawing α)) :
    (block operands).map framesOf = block (operands.map frame) := by
  have hitems : framesOf = List.map (Statement.frame (α := α)) := funext framesOf_eq_map
  have hitem (item : Drawn α) : id (Drawn.frame item) = (id item).map Statement.frame := rfl
  have halone (d : Drawing α) : d.frame.alone = d.alone.map Statement.frame := rfl
  rw [hitems]
  match operands with
  | [] => rfl
  | [only] => exact (Outcome.mapM_map_comm hitem only.items).symm
  | first :: second :: rest =>
    exact (Outcome.mapM_map_comm halone (first :: second :: rest)).symm

/-- Lists with the same frames are both empty, or have both one member, or more. -/
theorem operands_cases (h : operands'.map frame = operands.map frame) :
    (operands = [] ∧ operands' = []) ∨
      (∃ only only', operands = [only] ∧ operands' = [only'] ∧ only'.frame = only.frame) ∨
      ∃ first second rest first' second' rest',
        operands = first :: second :: rest ∧ operands' = first' :: second' :: rest' := by
  match operands, operands' with
  | [], [] => exact .inl ⟨rfl, rfl⟩
  | [only], [only'] => exact .inr (.inl ⟨only, only', rfl, rfl, List.head_eq_of_cons_eq h⟩)
  | _ :: _ :: _, _ :: _ :: _ => exact .inr (.inr ⟨_, _, _, _, _, _, rfl, rfl⟩)
  | [], _ :: _ | _ :: _, [] | [_], _ :: _ :: _ | _ :: _ :: _, [_] => simp at h

/-- A block of operands with the same frames is put under a call whatever its head. -/
theorem frame_group_congr (h : operands'.map frame = operands.map frame) (head head' : Head α)
    (opening : Opening) :
    Drawn.frame ((block operands').map (.block head' opening))
      = Drawn.frame ((block operands).map (.block head opening)) := by
  have hgroup (head : Head α) (operands : List (Drawing α)) :
      Drawn.frame ((block operands).map (.block head opening))
        = (block (operands.map frame)).map (.block { name := "" } opening) := by
    rw [← frame_block]
    cases block operands <;> rfl
  rw [hgroup, hgroup, h]

/-- An operator makes the same frame of operands with the same frames. -/
theorem frame_apply_congr (tag tag' : Tag) {op op' : Operator α} (hname : op'.name = op.name)
    (h : operands'.map frame = operands.map frame) :
    (Drawing.apply tag' op' operands').frame = (Drawing.apply tag op operands).frame := by
  unfold Drawing.apply
  refine frame_single_congr ?_
  rw [Drawn.frame_commented, Drawn.frame_commented]
  rcases operands_cases h with ⟨rfl, rfl⟩ | ⟨only, only', rfl, rfl, honly⟩ |
    ⟨first, second, rest, first', second', rest', rfl, rfl⟩
  · dsimp only
    rw [hname]
  · exact Drawn.frame_over_congr (congrArg alone honly)
  · exact frame_group_congr h _ _ .nextLine

theorem frame_compose_alone_congr {tag tag' : Tag} (hmodifier : tag'.modifier = tag.modifier)
    (op : SetOperation) (h : operands'.map frame = operands.map frame) :
    Drawn.frame (Drawing.compose tag' op operands').alone
      = Drawn.frame (Drawing.compose tag op operands).alone := by
  rw [compose_alone_comment tag, compose_alone_comment tag', hmodifier, Drawn.frame_commented,
    Drawn.frame_commented]
  unfold Drawing.compose
  simp only [apply_ite Drawing.alone, single, ite_self]
  rw [Drawn.frame_commented, Drawn.frame_commented]
  generalize tag.modifier = modifier
  have hgroup := frame_group_congr h { modifier := modifier, name := op.name }
    { modifier := modifier, name := op.name } .sameLine
  rcases operands_cases h with ⟨rfl, rfl⟩ | ⟨only, only', rfl, rfl, honly⟩ |
    ⟨first, second, rest, first', second', rest', rfl, rfl⟩
  · rfl
  · -- A union of one operand that has no modifier is that operand, all else is a call.
    have halone := congrArg alone honly
    cases op <;> cases modifier <;> first | exact halone | exact hgroup
  · cases op <;> cases modifier <;> exact hgroup

/-- A set operation makes the same frame of operands with the same frames. -/
theorem frame_compose_congr {tag tag' : Tag} (hmodifier : tag'.modifier = tag.modifier)
    (hplain : tag'.isPlain = tag.isPlain) (op : SetOperation)
    (h : operands'.map frame = operands.map frame) :
    (Drawing.compose tag' op operands').frame = (Drawing.compose tag op operands).frame := by
  have halone := frame_compose_alone_congr hmodifier op h
  have hnil : operands' = [] ↔ operands = [] := by
    rw [← List.map_eq_nil_iff (f := frame), h, List.map_eq_nil_iff]
  have hitems : (Drawing.compose tag' op operands').items.map Drawn.frame
      = (Drawing.compose tag op operands).items.map Drawn.frame := by
    rw [items_compose, items_compose]
    simp only [hplain, ne_eq, hnil]
    split
    · have halones := congrArg (List.map alone) h
      rw [List.map_map, List.map_map] at halones ⊢
      exact halones
    · exact congrArg (fun r => [r]) halone
  unfold frame
  rw [halone, hitems]

/-! ## §3. Sweeps of leaves. -/

end Drawing

theorem Operator.frame_over_congr (op op' : Operator α) {s s' : Statement α}
    (h : s'.frame = s.frame) : (op'.over s').frame = (op.over s).frame :=
  congrArg (Statement.over _) h

theorem frame_hullOfTwo_congr {s s' t t' : Statement α} (hs : s'.frame = s.frame)
    (ht : t'.frame = t.frame) : (hullOfTwo s' t').frame = (hullOfTwo s t).frame := by
  unfold hullOfTwo
  rw [Statement.frame, Statement.frame, framesOf_eq_map, framesOf_eq_map]
  simp only [List.map_cons, hs, ht, List.map_nil]

section

variable [Scalar α]

/-- Offsets say what is drawn under operators, and texts do not. -/
theorem frame_drawChain_blank {inner inner' : Statement α} (hinner : inner'.frame = inner.frame)
    (ops : List (Operator α)) (moved : Option (Vec3 α)) :
    (drawChain inner' (ops.map (Operator.filled .blank)) moved).frame
      = (drawChain inner ops moved).frame := by
  induction ops generalizing moved with
  | nil =>
    cases moved with
    | none => exact hinner
    | some v => exact Operator.frame_over_congr _ _ hinner
  | cons op rest ih =>
    rw [List.map_cons]
    have hover := Operator.frame_over_congr op (op.filled .blank) (ih none)
    cases op with
    | translate w =>
      cases moved with
      | none => exact hover
      | some v => exact Operator.frame_over_congr _ _ (ih none)
    | slide v =>
      have hstill := frame_hullOfTwo_congr (ih none) (ih (if v.isZero then none else some v))
      cases moved with
      | none => exact hstill
      | some u => exact Operator.frame_over_congr _ _ hstill
    | _ =>
      cases moved with
      | none => exact hover
      | some u => exact Operator.frame_over_congr _ _ hover

theorem Leaf.frame_swept_blanked (leaf : Leaf α) (offset : Vec3 α) :
    (leaf.blanked.swept offset).frame = (leaf.swept offset).frame := by
  have hcall : leaf.blanked.call.frame = leaf.call.frame := by
    unfold call
    rw [Statement.frame_underComment, Statement.frame_underComment]
    rfl
  exact frame_drawChain_blank hcall (.slide offset :: leaf.operators) none

namespace Drawing

theorem frame_slide_blanked (tag : Tag) (offset : Vec3 α) (leaves : List (Leaf α)) :
    (slide tag.blanked offset (leaves.map Leaf.blanked)).frame
      = (slide tag offset leaves).frame := by
  refine frame_single_congr (frame_compose_alone_congr tag.modifier_blanked .union ?_)
  rw [List.map_map, List.map_map, List.map_map]
  refine List.map_congr_left fun leaf _ => ?_
  exact frame_single_congr (congrArg Except.ok (leaf.frame_swept_blanked offset))

/-! ## §4. Parts. -/

variable {operands operands' : List (Drawing α)}

/-- A finish makes the same frame of operands with the same frames. -/
theorem frame_finished_congr (tag : Tag) (finish : Option Finish) (op : SetOperation)
    (h : operands'.map frame = operands.map frame) :
    (finished tag.blanked finish op operands').frame = (finished tag finish op operands).frame := by
  have hcompose := frame_compose_congr tag.modifier_blanked tag.isPlain_blanked op h
  have hone : [compose {} op operands'].map frame = [compose {} op operands].map frame :=
    congrArg (fun d => [d]) (frame_compose_congr rfl rfl op h)
  cases finish with
  | none => exact hcompose
  | some finish =>
    cases finish with
    | asBuilt => exact hcompose
    | revolve segments =>
      cases op with
      | union => exact frame_apply_congr _ _ rfl h
      | _ => exact frame_apply_congr _ _ rfl hone
    | hullPair =>
      have hlength : operands'.length = operands.length := by
        rw [← List.length_map (f := frame), h, List.length_map]
      unfold finished
      dsimp only
      rw [hlength]
      split
      · cases op with
        | union => exact frame_apply_congr _ _ rfl h
        | _ => exact frame_apply_congr _ _ rfl hone
      · rfl

/-- A part makes the same frame of members with the same frames. -/
theorem frame_part_congr (tag : Tag) {members members' : Assembly (Drawing α)}
    (hname : members'.name = members.name) (hfinish : members'.finish = members.finish)
    (hchildren : (members'.children.map (·.node)).map frame
      = (members.children.map (·.node)).map frame)
    (hholes : (members'.holes.map (·.node)).map frame = (members.holes.map (·.node)).map frame)
    (hmisc : (members'.miscellaneous.map (·.node)).map frame
      = (members.miscellaneous.map (·.node)).map frame) :
    (part tag.blanked members').frame = (part tag members).frame := by
  let nest (op : SetOperation) (ds : List (Drawing α)) : Drawing α := (compose {} op ds).frame
  have hnest (op : SetOperation) (ds : List (Drawing α)) :
      nest op (ds.map frame) = (compose {} op ds).frame := by
    refine frame_compose_congr rfl rfl op ?_
    rw [List.map_map]
    exact List.map_congr_left fun d _ => d.frame_frame
  -- Both parts arrange frames as one part does whose members are these frames.
  let frames : Assembly (Drawing α) :=
    { name := members.name
      children := members.children.map fun s => ⟨s.field, s.node.frame⟩
      holes := members.holes.map fun s => ⟨s.field, s.node.frame⟩
      miscellaneous := members.miscellaneous.map fun s => ⟨s.field, s.node.frame⟩ }
  have hnodes (slots : List (Slot (Drawing α))) :
      (slots.map fun s => (⟨s.field, s.node.frame⟩ : Slot (Drawing α))).map (·.node)
        = (slots.map (·.node)).map frame := by
    rw [List.map_map, List.map_map]
    rfl
  have harrange : frames.arrange nest
      = (members.arrange (compose {})).map fun (op, ds) => (op, ds.map frame) :=
    Assembly.arrange_map hnest (hnodes members.children) (hnodes members.holes)
      (hnodes members.miscellaneous)
  have harrange' : frames.arrange nest
      = (members'.arrange (compose {})).map fun (op, ds) => (op, ds.map frame) :=
    Assembly.arrange_map hnest ((hnodes members.children).trans hchildren.symm)
      ((hnodes members.holes).trans hholes.symm) ((hnodes members.miscellaneous).trans hmisc.symm)
  have hsame := harrange'.symm.trans harrange
  unfold part
  rw [hname, hfinish]
  cases h : members.arrange (compose {}) with
  | none =>
    rw [h, Option.map_none, Option.map_eq_none_iff] at hsame
    rw [hsame]
  | some arranged =>
    rw [h, Option.map_some, Option.map_eq_some_iff] at hsame
    obtain ⟨⟨op, operands'⟩, harranged, heq⟩ := hsame
    obtain ⟨rfl, hoperands⟩ := Prod.mk.inj heq
    rw [harranged]
    exact frame_single_congr (congrArg alone (frame_finished_congr tag _ _ hoperands))

end Drawing

/-! ## §5. Trees. -/

/-- The frames of a blank tree are those of the tree. -/
theorem Node.frame_draw_blanked (n : Node α) : n.blanked.draw.frame = n.draw.frame := by
  induction Node.everywhere_of_forall (fun _ => trivial) n with
  | @intro n _ _ ih =>
    have hall (ns : List (Node α)) (h : ∀ n ∈ ns, n.blanked.draw.frame = n.draw.frame) :
        ((blankedAll ns).map draw).map Drawing.frame = (ns.map draw).map Drawing.frame := by
      rw [blankedAll_eq_map, List.map_map, List.map_map, List.map_map]
      exact List.map_congr_left h
    cases n with
    | leaf tag shape =>
      refine Drawing.frame_single_congr (congrArg Except.ok ?_)
      unfold Leaf.call
      rw [Statement.frame_underComment, Statement.frame_underComment]
      rfl
    | apply tag op children =>
      by_cases hslide : ∃ v, op = .slide v
      · obtain ⟨v, rfl⟩ := hslide
        cases children with
        | nil => rfl
        | cons first rest =>
          have hleaves : leavesOfAll (blankedAll (first :: rest))
              = (leavesOfAll (first :: rest)).map Leaf.blanked := by
            rw [leavesOfAll_eq_flatMap, leavesOfAll_eq_flatMap, blankedAll_eq_map,
              List.flatMap_map, List.map_flatMap]
            exact List.flatMap_congr fun n _ => n.leaves_blanked
          -- There is a child on both sides, so both are sweeps.
          show (Drawing.slide tag.blanked v (leavesOfAll (blankedAll (first :: rest)))).frame
            = (Drawing.slide tag v (leavesOfAll (first :: rest))).frame
          rw [hleaves]
          exact Drawing.frame_slide_blanked tag v _
      · have hop : ∀ v, op ≠ .slide v := not_exists.mp hslide
        have hop' : ∀ v, op.filled .blank ≠ .slide v := by
          intro v h
          cases op <;> first | exact hop _ rfl | cases h
        rw [blanked, draw_apply _ hop, draw_apply _ hop']
        exact Drawing.frame_apply_congr tag _ op.name_filled (hall children ih)
    | compose tag op operands =>
      rw [blanked, draw_compose, draw_compose]
      exact Drawing.frame_compose_congr tag.modifier_blanked tag.isPlain_blanked op
        (hall operands ih)
    | part tag members =>
      obtain ⟨name, children, holes, misc, finish⟩ := members
      have hslots (slots : List (Slot (Node α)))
          (hmem : ∀ s ∈ slots, s ∈ children ++ holes ++ misc) :
          ((drawSlots (blankedSlots slots)).map (·.node)).map Drawing.frame
            = ((drawSlots slots).map (·.node)).map Drawing.frame := by
        simp only [drawSlots_eq_map, blankedSlots_eq_map, List.map_map]
        exact List.map_congr_left fun s hs => ih s.node (List.mem_map_of_mem (hmem s hs))
      exact Drawing.frame_part_congr tag rfl rfl (hslots children (by simp +contextual))
        (hslots holes (by simp +contextual)) (hslots misc (by simp +contextual))

/-- **Contents do not change frames.** Two trees that are the same but for what their comments
and their texts say are drawn with the same frame, or they fail alike. -/
theorem frame_statement_congr {n n' : Node α} (h : n'.blanked = n.blanked) :
    Drawn.frame n'.statement = Drawn.frame n.statement := by
  have hframe := n'.frame_draw_blanked.symm.trans ((congrArg (Drawing.frame ∘ Node.draw) h).trans
    n.frame_draw_blanked)
  exact congrArg Drawing.alone hframe

end

end SolidTree
