/-
  SolidTree.Proofs.Leaves.Extents
  ───────────────────────────────
  **THE LEAVES FILL THE BOX OF THE TREE.**

  A tree can be measured as it is or taken apart into its leaves first.
  Both give the same if the measure of every node is that of its leaves
  together, on every edge the outermost one, and known only if it is known
  of all of them:

      IsHull x xs     — the extents `x` are those of `xs` together

  A hull of hulls is a hull.  An operator that reads each edge from one edge
  below, and does not swap what is further out with what is further in,
  takes hulls to hulls; scaling does so as far as boxes are upright, since
  it chooses low and high anew.

      op.Distributes  — all operators but extrusions and sums
      n.IsWalkable    — a node that shows all that is below it

  Main results:
    * `IsHull.operator`  — the step for one operator
    * `isFilled`         — the extents of a tree are the hull of its leaves
    * `leaves_extents`   — the same, as an equation on every edge
-/
import SolidTree.Proofs.Rotation.Accepted
import SolidTree.Proofs.Tree.Folding
import SolidTree.Proofs.Upright.Trees
import SolidTree.Tree.Leaves

namespace SolidTree

open Outcome

/-! ## §1. Hulls. -/

/-- What is read from `x` is the outermost one of what is read from `xs`, and known iff that is
known of all of them. -/
def ReadsOutermost (s : Side) (r : Extents ℚ → Reading ℚ) (x : Extents ℚ) (xs : List (Extents ℚ)) :
    Prop :=
  ∀ v, r x = .ok v ↔ (∃ y ∈ xs, r y = .ok v) ∧ ∀ y ∈ xs, ∃ w, r y = .ok w ∧ s.Within v w

/-- The extents `x` are those of `xs` together. -/
def IsHull (x : Extents ℚ) (xs : List (Extents ℚ)) : Prop :=
  ∀ e : Edge, ReadsOutermost e.side (·.get e) x xs

namespace IsHull

variable {x : Extents ℚ} {xs : List (Extents ℚ)}

theorem get_iff : IsHull x xs ↔ ∀ e v, x.get e = .ok v ↔
    (∃ y ∈ xs, y.get e = .ok v) ∧ ∀ y ∈ xs, ∃ w, y.get e = .ok w ∧ e.side.Within v w := Iff.rfl

theorem singleton (x : Extents ℚ) : IsHull x [x] := by
  refine get_iff.mpr fun e v => ?_
  simp only [List.mem_singleton, exists_eq_left, forall_eq]
  exact ⟨fun h => ⟨h, v, h, e.side.within_refl v⟩, And.left⟩

/-- The union of some extents is their hull. -/
theorem union (hne : xs ≠ []) : IsHull (.union xs) xs := by
  refine get_iff.mpr fun e v => ?_
  have hne' : xs.map (·.get e) ≠ [] := fun h => hne (List.map_eq_nil_iff.mp h)
  have hspec : ∀ {u}, Extents.outermost e.side (xs.map (·.get e)) = .ok u →
      (∃ y ∈ xs, y.get e = .ok u) ∧ ∀ y ∈ xs, ∃ w, y.get e = .ok w ∧ e.side.Within u w := by
    intro u hu
    obtain ⟨hmem, hwithin⟩ := Extents.outermost_spec hne' hu
    exact ⟨List.mem_map.mp hmem, fun y hy => hwithin _ (List.mem_map_of_mem hy)⟩
  rw [Extents.get_union]
  refine ⟨hspec, fun ⟨⟨y, hy, hv⟩, hwithin⟩ => ?_⟩
  have hknown : ∀ y ∈ xs, ∃ w, y.get e = .ok w := fun y hy => (hwithin y hy).imp fun _ => And.left
  obtain ⟨u, hu⟩ := Extents.exists_outermost (s := e.side) (List.forall_mem_map.mpr hknown)
  -- Of two outermost ones neither is beyond the other.
  obtain ⟨⟨z, hz, hzu⟩, hwithin'⟩ := hspec hu
  obtain ⟨w, hw, hvw⟩ := hwithin z hz
  obtain ⟨w', hw', huw'⟩ := hwithin' y hy
  rw [hzu] at hw
  rw [hv] at hw'
  cases hw
  cases hw'
  rw [hu, huw'.antisymm hvw]

/-- Two hulls of the same extents have the same coordinates. -/
theorem unique {y : Extents ℚ} (h : IsHull x xs) (h' : IsHull y xs) (e : Edge) (v : ℚ) :
    x.get e = .ok v ↔ y.get e = .ok v := (h e v).trans (h' e v).symm

/-- An edge that is known of all is known of the hull. -/
theorem known (h : IsHull x xs) (hne : xs ≠ []) {e : Edge}
    (hall : ∀ y ∈ xs, ∃ w, y.get e = .ok w) : ∃ v, x.get e = .ok v := by
  obtain ⟨v, hv⟩ := Extents.exists_outermost (s := e.side) (List.forall_mem_map.mpr hall)
  rw [← Extents.get_union] at hv
  exact ⟨v, (h.unique (union hne) e v).mpr hv⟩

/-- A hull of hulls is the hull of all. -/
theorem flatMap {β : Type} {ns : List β} {f : β → Extents ℚ} {g : β → List (Extents ℚ)}
    (h : IsHull x (ns.map f)) (hg : ∀ n ∈ ns, g n ≠ [] ∧ IsHull (f n) (g n)) :
    IsHull x (ns.flatMap g) := by
  refine get_iff.mpr fun e v => ?_
  rw [get_iff.mp h e v]
  simp only [List.mem_map, List.mem_flatMap, exists_exists_and_eq_and, forall_exists_index,
    and_imp, forall_apply_eq_imp_iff₂]
  constructor
  · rintro ⟨⟨n, hn, hv⟩, hwithin⟩
    constructor
    · obtain ⟨⟨y, hy, hyv⟩, -⟩ := (get_iff.mp (hg n hn).2 e v).mp hv
      exact ⟨y, ⟨n, hn, hy⟩, hyv⟩
    · intro y m hm hy
      obtain ⟨w, hw, hvw⟩ := hwithin m hm
      obtain ⟨u, hu, hwu⟩ := ((get_iff.mp (hg m hm).2 e w).mp hw).2 y hy
      exact ⟨u, hu, hvw.trans hwu⟩
  · rintro ⟨⟨y, ⟨n, hn, hy⟩, hyv⟩, hwithin⟩
    constructor
    · exact ⟨n, hn, (get_iff.mp (hg n hn).2 e v).mpr ⟨⟨y, hy, hyv⟩, fun z hz => hwithin z n hn hz⟩⟩
    · intro m hm
      obtain ⟨hne, hhull⟩ := hg m hm
      obtain ⟨w, hw⟩ := hhull.known hne fun z hz => (hwithin z m hm hz).imp fun _ => And.left
      obtain ⟨⟨z, hz, hzw⟩, -⟩ := (get_iff.mp hhull e w).mp hw
      obtain ⟨u, hu, hvu⟩ := hwithin z m hm hz
      rw [hzw] at hu
      cases hu
      exact ⟨w, hw, hvu⟩

/-- A hull of upright boxes is upright. -/
theorem upright (h : IsHull x xs) (hne : xs ≠ []) (hup : ∀ y ∈ xs, Upright y.get) :
    Upright x.get := by
  intro axis low high hlow hhigh
  exact upright_union hup axis low high (((h.unique (union hne)) _ _).mp hlow)
    (((h.unique (union hne)) _ _).mp hhigh)

/-! ## §2. Readings of one edge. -/

section Readings

variable {r : Extents ℚ → Reading ℚ} {s : Side}

/-- A reading that is made of one edge, if some others are known too, by a function that does
not take an inner coordinate beyond an outer one. -/
theorem reading (h : IsHull x xs) (hne : xs ≠ []) (source : Edge) (f : ℚ → ℚ) (others : List Edge)
    (hread : ∀ y ∈ x :: xs, ∀ v, r y = .ok v ↔
      (∃ a, y.get source = .ok a ∧ f a = v) ∧ ∀ o ∈ others, ∃ b, y.get o = .ok b)
    (hkeeps : ∀ a b, source.side.Within a b → s.Within (f a) (f b)) :
    ReadsOutermost s r x xs := by
  obtain ⟨hx, hxs⟩ := List.forall_mem_cons.mp hread
  intro v
  constructor
  · intro hv
    obtain ⟨⟨a, ha, rfl⟩, hothers⟩ := (hx v).mp hv
    obtain ⟨⟨y, hy, hya⟩, hwithin⟩ := (get_iff.mp h source a).mp ha
    have hothers' : ∀ y ∈ xs, ∀ o ∈ others, ∃ b, y.get o = .ok b := by
      intro y hy o ho
      obtain ⟨b, hb⟩ := hothers o ho
      exact (((get_iff.mp h o b).mp hb).2 y hy).imp fun _ => And.left
    refine ⟨⟨y, hy, (hxs y hy _).mpr ⟨⟨a, hya, rfl⟩, hothers' y hy⟩⟩, fun y hy => ?_⟩
    obtain ⟨w, hw, haw⟩ := hwithin y hy
    exact ⟨f w, (hxs y hy _).mpr ⟨⟨w, hw, rfl⟩, hothers' y hy⟩, hkeeps a w haw⟩
  · rintro ⟨⟨y, hy, hyv⟩, hwithin⟩
    have hparts : ∀ y ∈ xs, (∃ a, y.get source = .ok a) ∧ ∀ o ∈ others, ∃ b, y.get o = .ok b := by
      intro y hy
      obtain ⟨w, hw, -⟩ := hwithin y hy
      obtain ⟨⟨a, ha, -⟩, hothers⟩ := (hxs y hy w).mp hw
      exact ⟨⟨a, ha⟩, hothers⟩
    obtain ⟨a, ha⟩ := h.known hne fun y hy => (hparts y hy).1
    have hothers := fun o ho => h.known hne fun y hy => (hparts y hy).2 o ho
    -- The coordinate of the hull is that of some `z`, of which the reading is not beyond `v`.
    obtain ⟨⟨z, hz, hza⟩, hbeyond⟩ := (get_iff.mp h source a).mp ha
    obtain ⟨w, hw, hvw⟩ := hwithin z hz
    obtain ⟨⟨a', ha', rfl⟩, -⟩ := (hxs z hz w).mp hw
    rw [hza] at ha'
    cases ha'
    obtain ⟨⟨b, hb, rfl⟩, -⟩ := (hxs y hy v).mp hyv
    obtain ⟨b', hb', hab⟩ := hbeyond y hy
    rw [hb] at hb'
    cases hb'
    exact (hx (f b)).mpr ⟨⟨a, ha, (hkeeps a b hab).antisymm hvw⟩, hothers⟩

/-- A reading that is made of one edge alone. -/
theorem reading_map (h : IsHull x xs) (hne : xs ≠ []) (source : Edge) (f : ℚ → ℚ)
    (hread : ∀ y, r y = (y.get source).map f)
    (hkeeps : ∀ a b, source.side.Within a b → s.Within (f a) (f b)) :
    ReadsOutermost s r x xs := by
  refine h.reading hne source f [] (fun y _ v => ?_) hkeeps
  rw [hread, map_eq_ok]
  exact (and_iff_left (List.forall_mem_nil _)).symm

/-- A reading of an edge as it is. -/
theorem reading_same (h : IsHull x xs) {source : Edge} (hread : ∀ y, r y = y.get source) :
    ReadsOutermost source.side r x xs := by
  rw [funext hread]
  exact h source

/-- A reading that is the same for all. -/
theorem reading_const (hne : xs ≠ []) {result : Reading ℚ} (hread : ∀ y, r y = result) :
    ReadsOutermost s r x xs := by
  obtain ⟨y, hy⟩ := List.exists_mem_of_ne_nil xs hne
  intro v
  simp only [hread]
  exact ⟨fun h => ⟨⟨y, hy, h⟩, fun _ _ => ⟨v, h, s.within_refl v⟩⟩, fun ⟨⟨_, _, h⟩, _⟩ => h⟩

end Readings

end IsHull

/-! ## §3. Operators. -/

namespace Operator

/-- The operator reads each edge from one edge below, or from none. -/
def Distributes : Operator ℚ → Prop
  | .linearExtrude .. | .rotateExtrude .. | .minkowski => False
  | _ => True

theorem Distributes.keepsUpright {op : Operator ℚ} (h : op.Distributes) : op.KeepsUpright := by
  cases op with
  | linearExtrude => exact h.elim
  | _ => trivial

theorem get_extents_singleton (op : Operator ℚ) (x : Extents ℚ) :
    (op.extents [x]).get = op.reading x.get [x] := by
  rw [op.get_extents (List.cons_ne_nil _ _), Extents.union_singleton]

/-- An edge that moves out by `r`, unless it is on Z. -/
def movedOut (r : ℚ) (e : Edge) (a : ℚ) : ℚ :=
  match e with
  | .left | .back => a - r
  | .right | .front => a + r
  | .bottom | .top => a

theorem grownReading_eq_map (r : ℚ) (child : Edge → Reading ℚ) (e : Edge) :
    grownReading r child e = (child e).map (movedOut r e) := by
  unfold grownReading
  generalize child e = a
  cases a <;> cases e <;> rfl

theorem outer_eq_left {s : Side} {a b : ℚ} (h : s.Within a b) : Extents.outer s a b = a := by
  obtain ⟨hchoice | hchoice, ha, -⟩ := Rational.outer_spec s a b
  · exact hchoice
  · rw [hchoice] at ha ⊢
    exact ha.antisymm h

theorem outer_eq_right {s : Side} {a b : ℚ} (h : s.Within b a) : Extents.outer s a b = b := by
  obtain ⟨hchoice | hchoice, -, hb⟩ := Rational.outer_spec s a b
  · rw [hchoice] at hb ⊢
    exact hb.antisymm h
  · exact hchoice

/-- Of two scaled coordinates the outer one comes from the same side, or from the opposite one
if the factor is negative. -/
theorem exists_outer_scaled {x : Extents ℚ} {axis : Axis} {low high : ℚ} (hle : low ≤ high)
    (hlow : x.get (.on axis .min) = .ok low) (hhigh : x.get (.on axis .max) = .ok high) (s : Side)
    (f : ℚ) :
    ∃ a, x.get (.on axis (if 0 ≤ f then s else s.opposite)) = .ok a ∧
      a * f = Extents.outer s (low * f) (high * f) := by
  by_cases hf : 0 ≤ f
  · have hscaled : low * f ≤ high * f := mul_le_mul_of_nonneg_right hle hf
    rw [if_pos hf]
    cases s with
    | min => exact ⟨low, hlow, (outer_eq_left (s := .min) hscaled).symm⟩
    | max => exact ⟨high, hhigh, (outer_eq_right (s := .max) hscaled).symm⟩
  · have hscaled : high * f ≤ low * f := mul_le_mul_of_nonpos_right hle (le_of_not_ge hf)
    rw [if_neg hf]
    cases s with
    | min => exact ⟨high, hhigh, (outer_eq_right (s := .min) hscaled).symm⟩
    | max => exact ⟨low, hlow, (outer_eq_left (s := .max) hscaled).symm⟩

/-- An edge of a scaled box, if the box is upright: it is read from one edge, and the one on
the other side has to be known. -/
theorem scaledReading_eq_ok {x : Extents ℚ} (hx : Upright x.get) (factors : Vec3 ℚ) (e : Edge)
    (v : ℚ) :
    scaledReading factors x.get e = .ok v ↔
      (∃ a, x.get (.on e.axis (if 0 ≤ factors.get e.axis then e.side else e.side.opposite))
          = .ok a ∧ a * factors.get e.axis = v) ∧
      ∀ o ∈ [Edge.on e.axis .min, .on e.axis .max], ∃ b, x.get o = .ok b := by
  unfold scaledReading
  simp only [bind_eq_ok, pure_eq_ok, Except.ok.injEq, List.forall_mem_cons]
  constructor
  · rintro ⟨low, hlow, high, hhigh, rfl⟩
    exact ⟨exists_outer_scaled (hx _ _ _ hlow hhigh) hlow hhigh _ _, ⟨low, hlow⟩, ⟨high, hhigh⟩,
      List.forall_mem_nil _⟩
  · rintro ⟨⟨a, ha, rfl⟩, ⟨low, hlow⟩, ⟨high, hhigh⟩, -⟩
    obtain ⟨b, hb, houter⟩ := exists_outer_scaled (hx _ _ _ hlow hhigh) hlow hhigh e.side
      (factors.get e.axis)
    rw [ha] at hb
    cases hb
    exact ⟨low, hlow, high, hhigh, houter.symm⟩

end Operator

/-- **An operator takes the hull of upright boxes to the hull of what it makes of each.** -/
theorem IsHull.operator {op : Operator ℚ} (hop : op.Distributes) {x : Extents ℚ}
    {xs : List (Extents ℚ)} (h : IsHull x xs) (hne : xs ≠ []) (hup : ∀ y ∈ xs, Upright y.get) :
    IsHull (op.extents [x]) (xs.map fun y => op.extents [y]) := by
  intro e
  suffices hread : ReadsOutermost e.side (fun y => op.reading y.get [y] e) x xs by
    intro v
    simp only [List.mem_map, exists_exists_and_eq_and, forall_exists_index, and_imp,
      forall_apply_eq_imp_iff₂, op.get_extents_singleton]
    exact hread v
  cases op with
  | translate offset =>
    exact h.reading_map hne e (· + offset.get e.axis) (fun _ => rfl)
      fun a b hab => hab.add (e.side.within_refl _)
  | rotate degrees =>
    cases hturn : QuarterTurn.ofDegrees degrees with
    | error fault =>
      exact IsHull.reading_const hne fun y => congrArg (· >>= _) hturn
    | ok turn =>
      obtain ⟨column, negated, hrow⟩ := QuarterTurn.isAxial_ofDegrees hturn e.axis
      refine h.reading_map hne (.on column (if negated then e.side.opposite else e.side))
        (fun a => if negated then -a else a) (fun y => ?_) fun a b hab => ?_
      · rw [← QuarterTurn.reading_of_row hrow]
        exact congrArg (· >>= fun turn => turn.reading y.get e) hturn
      · rw [Edge.side_on] at hab
        cases negated with
        | false => exact hab
        | true => exact hab.neg
  | scale factors =>
    refine h.reading hne _ _ _ (fun y hy v => Operator.scaledReading_eq_ok ?_ factors e v)
      fun a b hab => ?_
    · rcases List.mem_cons.mp hy with rfl | hy
      · exact h.upright hne hup
      · exact hup y hy
    · rw [Edge.side_on] at hab
      by_cases hf : 0 ≤ factors.get e.axis
      · rw [if_pos hf] at hab
        exact hab.mul_nonneg hf
      · rw [if_neg hf] at hab
        exact hab.mul_nonpos (le_of_not_ge hf)
  | mirror normal =>
    by_cases hplane : 1 < (Axis.all.filter fun axis => normal.get axis != 0).length
    · exact IsHull.reading_const hne fun y => if_pos hplane
    by_cases hflip : (normal.get e.axis != 0) = true
    · refine h.reading_map hne e.opposite (-·) (fun y => ?_) fun a b hab => ?_
      · exact (if_neg hplane).trans (if_pos hflip)
      · unfold Edge.opposite at hab
        rw [Edge.side_on] at hab
        exact hab.neg
    · exact h.reading_same fun y => (if_neg hplane).trans (if_neg hflip)
  | offset r delta chamfer =>
    cases r with
    | none => exact h e
    | some r =>
      by_cases hr : 0 ≤ r
      · refine h.reading_map hne e (Operator.movedOut r e)
          (fun y => (if_pos hr).trans (Operator.grownReading_eq_map r y.get e)) fun a b hab => ?_
        cases e with
        | left | back => exact sub_le_sub_right hab r
        | right | front => exact add_le_add_left hab r
        | bottom | top => exact hab
      · exact h.reading_same fun y => if_neg hr
  | projection cut =>
    cases e with
    | bottom | top => exact IsHull.reading_const hne fun _ => rfl
    | left | right | back | front => exact h _
  | color | slide | hull | render => exact h e
  | linearExtrude | rotateExtrude | minkowski => exact hop.elim

/-! ## §4. Trees. -/

namespace Node

/-- The node shows all that is below it and that is measured: an upright leaf, an operator that
distributes, a union, or a part of structural children alone, none of them empty. -/
def IsWalkable : Node ℚ → Prop
  | .leaf _ shape => Upright shape.reading
  | .apply _ op children => op.Distributes ∧ children ≠ []
  | .compose _ op operands => op = .union ∧ operands ≠ []
  | .part _ members => members.children ≠ [] ∧ members.miscellaneous = []

/-- The boxes of the leaves. -/
def leafExtents (n : Node ℚ) : List (Extents ℚ) := n.leaves.map fun leaf => leaf.toNode.extents

theorem leafExtents_apply (tag : Tag) (op : Operator ℚ) (children : List (Node ℚ)) :
    (Node.apply tag op children).leafExtents
      = (children.flatMap leafExtents).map fun x => op.extents [x] := by
  show ((leavesOfAll children).map (·.under op)).map (·.toNode.extents) = _
  rw [leavesOfAll_eq_flatMap, List.map_map, List.map_flatMap, List.map_flatMap]
  refine congrArg (children.flatMap ·) (funext fun n => ?_)
  unfold leafExtents
  rw [List.map_map]
  rfl

theorem leafExtents_compose (tag : Tag) (op : SetOperation) (operands : List (Node ℚ)) :
    (Node.compose tag op operands).leafExtents = operands.flatMap leafExtents := by
  show (leavesOfAll operands).map (·.toNode.extents) = _
  rw [leavesOfAll_eq_flatMap, List.map_flatMap]
  rfl

/-- Of a part without miscellaneous items the structural children are shown. -/
theorem leafExtents_part (tag : Tag) {members : Part ℚ} (h : members.miscellaneous = []) :
    (Node.part tag members).leafExtents
      = (members.children.map (·.node)).flatMap leafExtents := by
  show (leavesOfSlots members.children ++ leavesOfSlots members.miscellaneous).map
    (·.toNode.extents) = _
  rw [h, leavesOfSlots, List.append_nil, leavesOfSlots_eq_flatMap, List.map_flatMap,
    List.flatMap_map]
  rfl

/-- There are leaves, they are upright, and the node is as large as they are together. -/
structure IsFilled (n : Node ℚ) : Prop where
  ne_nil : n.leafExtents ≠ []
  upright : ∀ x ∈ n.leafExtents, Upright x.get
  hull : IsHull n.extents n.leafExtents

/-- A union is as large as the leaves of its elements are together. -/
theorem isFilled_union {ns : List (Node ℚ)} (hne : ns ≠ []) (h : ∀ n ∈ ns, n.IsFilled) :
    ns.flatMap leafExtents ≠ [] ∧ (∀ x ∈ ns.flatMap leafExtents, Upright x.get) ∧
      IsHull (.union (ns.map extents)) (ns.flatMap leafExtents) := by
  obtain ⟨n, hn⟩ := List.exists_mem_of_ne_nil ns hne
  obtain ⟨x, hx⟩ := List.exists_mem_of_ne_nil _ (h n hn).ne_nil
  refine ⟨List.ne_nil_of_mem (List.mem_flatMap.mpr ⟨n, hn, hx⟩), fun x hx => ?_, ?_⟩
  · obtain ⟨n, hn, hx⟩ := List.mem_flatMap.mp hx
    exact (h n hn).upright x hx
  · have hne' : ns.map extents ≠ [] := fun h => hne (List.map_eq_nil_iff.mp h)
    exact (IsHull.union hne').flatMap fun n hn => ⟨(h n hn).ne_nil, (h n hn).hull⟩

/-- **Every walkable tree is as large as its leaves are together.** -/
theorem isFilled {n : Node ℚ} (h : n.Everywhere Node.counted IsWalkable) : n.IsFilled := by
  induction h with
  | @intro n here there ih =>
    cases n with
    | leaf tag shape =>
      have hget : shape.extents.get = shape.reading := funext fun e => Extents.get_ofFn _ e
      refine ⟨List.cons_ne_nil _ _, List.forall_mem_singleton.mpr ?_, IsHull.singleton _⟩
      show Upright shape.extents.get
      rw [hget]
      exact here
    | apply tag op children =>
      obtain ⟨hop, hne⟩ := here
      obtain ⟨hne', hup, hhull⟩ := isFilled_union hne ih
      have hextents : (Node.apply tag op children).extents
          = op.extents [.union (children.map extents)] := by
        rw [extents_apply, op.extents_union (fun h => hne (List.map_eq_nil_iff.mp h))]
        rintro rfl
        exact hop.elim
      refine ⟨?_, ?_, ?_⟩
      · rw [leafExtents_apply]
        exact fun h => hne' (List.map_eq_nil_iff.mp h)
      · rw [leafExtents_apply]
        refine List.forall_mem_map.mpr fun x hx => ?_
        rw [op.get_extents_singleton]
        exact Operator.upright_reading hop.keepsUpright (hup x hx)
          (List.forall_mem_singleton.mpr (hup x hx))
      · rw [leafExtents_apply, hextents]
        exact hhull.operator hop hne' hup
    | compose tag op operands =>
      obtain ⟨rfl, hne⟩ := here
      obtain ⟨hne', hup, hhull⟩ := isFilled_union hne ih
      rw [← leafExtents_compose tag .union operands] at hne' hup hhull
      refine ⟨hne', hup, ?_⟩
      rw [extents_compose]
      exact hhull
    | part tag members =>
      obtain ⟨hne, hmisc⟩ := here
      obtain ⟨hne', hup, hhull⟩ := isFilled_union (fun h => hne (List.map_eq_nil_iff.mp h)) ih
      rw [← leafExtents_part tag hmisc] at hne' hup hhull
      refine ⟨hne', hup, ?_⟩
      rw [extents_part, Assembly.extents]
      rwa [List.map_map] at hhull

/-- **Leaves have the box of the tree.** On every edge the union of the leaves of a walkable tree
has the same coordinate as the tree, and it has one iff the tree does. -/
theorem leaves_extents {n : Node ℚ} (h : n.Everywhere Node.counted IsWalkable) (e : Edge) (v : ℚ) :
    (Extents.union (n.leaves.map fun leaf => leaf.toNode.extents)).get e = .ok v ↔
      n.extents.get e = .ok v := by
  obtain ⟨hne, -, hhull⟩ := isFilled h
  exact (IsHull.union hne).unique hhull e v

/-! A board with lettering, turned by a quarter, on a foot that is mirrored and widened. What does
not count for the box of a part need not be walkable. -/

/-- A text of which the right edge is not known, with a board behind it. -/
def lettered : Node ℚ :=
  .compose {} .union [.leaf {} (.text { text := "open", size := 3 }), .leaf {} (.square 8 2)]

/-- The board on its foot, with a hole that is the difference of nothing. -/
def signboard : Node ℚ :=
  .part {} {
    name := "Signboard"
    children :=
      [⟨none, .apply {} (.rotate ⟨0, 0, 90⟩) [lettered]⟩,
        ⟨some "foot", .apply {} (.scale ⟨-2, 1, 1⟩) [.leaf {} (.cube ⟨1, 2, 3⟩)]⟩]
    holes := [⟨none, .compose {} .difference []⟩] }

/-- The left edge of what is turned is on the back of the box, and the right one nowhere. -/
theorem leaves_extents_signboard :
    signboard.Everywhere Node.counted IsWalkable ∧
      (Extents.union (signboard.leaves.map fun leaf => leaf.toNode.extents)).get .back
        = .ok (-4) ∧
      ∀ v, (Extents.union (signboard.leaves.map fun leaf => leaf.toNode.extents)).get .front
        ≠ .ok v := by
  have hleaf (tag : Tag) {shape : Primitive ℚ} (h : shape.HasSizes) :
      (Node.leaf tag shape).Everywhere Node.counted IsWalkable :=
    .intro (Primitive.upright_shape h) nofun
  have hlettered : lettered.Everywhere Node.counted IsWalkable := by
    refine .intro ⟨rfl, List.cons_ne_nil _ _⟩ (List.forall_mem_cons.mpr
      ⟨hleaf _ trivial, List.forall_mem_singleton.mpr (hleaf _ ?_)⟩)
    exact ⟨by decide +kernel, by decide +kernel⟩
  have hfoot : (Node.leaf {} (.cube ⟨1, 2, 3⟩)).Everywhere Node.counted IsWalkable :=
    hleaf _ fun axis => by cases axis <;> decide +kernel
  have hsignboard : signboard.Everywhere Node.counted IsWalkable := by
    refine .intro ⟨List.cons_ne_nil _ _, rfl⟩ (List.forall_mem_cons.mpr ⟨?_,
      List.forall_mem_singleton.mpr ?_⟩)
    · exact .intro ⟨trivial, List.cons_ne_nil _ _⟩ (List.forall_mem_singleton.mpr hlettered)
    · exact .intro ⟨trivial, List.cons_ne_nil _ _⟩ (List.forall_mem_singleton.mpr hfoot)
  have hback : signboard.extents.get .back = .ok (-4) := by decide +kernel
  have hfront : signboard.extents.get .front = .error (.undefinedExtent (.glyphs .right)) := by
    decide +kernel
  refine ⟨hsignboard, (leaves_extents hsignboard _ _).mpr hback, fun v hv => ?_⟩
  have hknown := (leaves_extents hsignboard _ _).mp hv
  rw [hfront] at hknown
  cases hknown

end Node

end SolidTree
