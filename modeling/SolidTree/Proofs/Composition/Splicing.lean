/-
  SolidTree.Proofs.Composition.Splicing
  ─────────────────────────────────────
  **OPERANDS THAT ARE APPENDED.**

  A node and another one are composed in one of two ways.  A plain composite
  by the same operation is spliced: the other node is appended to its
  operands.  Any other node, and one with a modifier or a comment above all,
  stays whole and is the first of two operands.  Either way the result is as
  good as the composite of the two, unless the operands that are appended to
  are none:

      n.meaningOver I      — the points of a tree whose plain composites are
                             set operations; `I` says what all else means
      n.IsSplice op a b    — `n` reads and means what `a` and `b` composed by
                             `op` do

  Main results:
    * `builders_splice`        — unions, intersections and differences
    * `subtractAll_keeps_iff`  — when subtracting keeps the box
    * `subtractAll_fromNothing` — what is subtracted from nothing is the base
-/
import SolidTree.Proofs.Composition.Nesting
import SolidTree.Tree.Composition

namespace SolidTree

variable {α : Type}

/-! ## §1. Points over an interpretation. -/

section Meaning

variable {Place : Type*}

mutual

/-- The points of a tree, of which all nodes but plain composites are interpreted. -/
def Node.meaningOver (I : Node α → Set Place) : Node α → Set Place
  | .compose tag op operands =>
    if tag.isPlain then op.act (meaningsOver I operands) else I (.compose tag op operands)
  | n => I n

/-- The points of each tree of a list. -/
def meaningsOver (I : Node α → Set Place) : List (Node α) → List (Set Place)
  | [] => []
  | n :: rest => n.meaningOver I :: meaningsOver I rest

end

theorem meaningsOver_eq_map (I : Node α → Set Place) (ns : List (Node α)) :
    meaningsOver I ns = ns.map (·.meaningOver I) := by
  induction ns with
  | nil => rfl
  | cons n rest ih => rw [meaningsOver, ih, List.map_cons]

theorem Node.meaningOver_compose (I : Node α → Set Place) {tag : Tag} (htag : tag.isPlain = true)
    (op : SetOperation) (operands : List (Node α)) :
    (Node.compose tag op operands).meaningOver I = op.act (operands.map (·.meaningOver I)) := by
  rw [meaningOver, if_pos htag, meaningsOver_eq_map]

end Meaning

/-! ## §2. What is appended to. -/

theorem Tag.eq_of_isPlain {t : Tag} (h : t.isPlain = true) : t = {} := by
  obtain ⟨modifier, comment⟩ := t
  obtain ⟨hmodifier, hcomment⟩ := Bool.and_eq_true_iff.mp h
  rw [beq_iff_eq] at hmodifier hcomment
  subst hmodifier hcomment
  rfl

namespace Node

/-- The node is its own only operand, or it is the plain composite of its operands. -/
theorem operandsFor_cases (n : Node α) (op : SetOperation) :
    n.operandsFor op = [n] ∨ n = .compose {} op (n.operandsFor op) := by
  cases n with
  | compose tag own operands =>
    by_cases h : tag.isPlain ∧ own = op
    · obtain ⟨htag, rfl⟩ := h
      rw [Tag.eq_of_isPlain htag]
      exact .inr (congrArg _ (if_pos ⟨rfl, rfl⟩).symm)
    · exact .inl (if_neg h)
  | leaf | apply | part => exact .inl rfl

/-- Only a plain composite of nothing has no operands. -/
theorem operandsFor_eq_nil_iff {n : Node α} {op : SetOperation} :
    n.operandsFor op = [] ↔ n = .compose {} op [] := by
  constructor
  · intro h
    rcases n.operandsFor_cases op with hone | hcomposite
    · rw [hone] at h
      cases h
    · rwa [h] at hcomposite
  · rintro rfl
    cases op <;> rfl

/-- A node that is not plain stays whole. -/
theorem operandsFor_of_not_plain {n : Node α} (h : n.isPlain = false) (op : SetOperation) :
    n.operandsFor op = [n] := by
  rcases n.operandsFor_cases op with hone | hcomposite
  · exact hone
  · rw [hcomposite] at h
    cases h

theorem meaningOver_composeWith {Place : Type*} (I : Node α → Set Place) {n : Node α}
    {op : SetOperation} (h : n.operandsFor op ≠ []) (others : List (Node α)) :
    (n.composeWith op others).meaningOver I
      = (Node.compose {} op (n :: others)).meaningOver I := by
  unfold composeWith
  rw [meaningOver_compose I rfl, meaningOver_compose I rfl, List.map_append, List.map_cons]
  rcases n.operandsFor_cases op with hone | hcomposite
  · rw [hone]
    rfl
  · have hmeaning : n.meaningOver I = op.act ((n.operandsFor op).map (·.meaningOver I)) :=
      (congrArg (·.meaningOver I) hcomposite).trans (meaningOver_compose I rfl op _)
    rw [hmeaning, SetOperation.act_nested op (by simpa using h)]

variable [Scalar α]

theorem extents_composeWith [Scalar.Limited α] {n : Node α} {op : SetOperation}
    (h : n.operandsFor op ≠ []) (others : List (Node α)) :
    (n.composeWith op others).extents = (Node.compose {} op (n :: others)).extents := by
  unfold composeWith
  rw [extents_compose, extents_compose, List.map_append, List.map_cons]
  rcases n.operandsFor_cases op with hone | hcomposite
  · rw [hone]
    rfl
  · have hextents : n.extents = .compose op ((n.operandsFor op).map extents) := by
      rw [← extents_compose, ← hcomposite]
    rw [hextents, Extents.compose_nested op (by simpa using h)]

/-! ## §3. Splices. -/

/-- The node is as good as the composite of two: it has the same readings and the same points,
and the second of the two is an operand, as the first one is unless it is plain. -/
structure IsSplice (n : Node α) (op : SetOperation) (a b : Node α) : Prop where
  extents : ∀ e, n.extents.get e = (Node.compose {} op [a, b]).extents.get e
  points : ∀ {Place : Type} (I : Node α → Set Place),
    n.meaningOver I = (Node.compose {} op [a, b]).meaningOver I
  whole : ∃ operands, n = .compose {} op (operands ++ [b]) ∧ (a.isPlain = false → operands = [a])

theorem isSplice_composeWith [Scalar.Limited α] {a : Node α} {op : SetOperation}
    (h : a ≠ .compose {} op []) (b : Node α) : (a.composeWith op [b]).IsSplice op a b := by
  have hoperands : a.operandsFor op ≠ [] := fun hnil => h (operandsFor_eq_nil_iff.mp hnil)
  constructor
  · intro e
    rw [extents_composeWith hoperands]
  · intro Place I
    rw [meaningOver_composeWith I hoperands]
  · exact ⟨a.operandsFor op, rfl, fun hplain => operandsFor_of_not_plain hplain op⟩

/-- **Appended operands are as good as nested ones.** Unless the first of two nodes is a composite
of nothing, their union, their intersection and their difference read on every edge what the
composites of the two nodes do, with the same faults, and mean the same, whatever the other nodes
mean. -/
theorem builders_splice [Scalar.Limited α] {a : Node α} (ha : ∀ tag op, a ≠ .compose tag op [])
    (b : Node α) :
    (a.unionWith b).IsSplice .union a b ∧ (a.intersectWith b).IsSplice .intersection a b ∧
      (a.subtract b).IsSplice .difference a b :=
  ⟨isSplice_composeWith (ha _ _) b, isSplice_composeWith (ha _ _) b,
    isSplice_composeWith (ha _ _) b⟩

/-! An overlap of doubles that a mesh is added to. -/

/-- A word where it overlaps a block. -/
def cutWord : Node Float :=
  .compose {} .intersection
    [.leaf {} (.text { text := "on", size := 10 }), .leaf {} (.cube ⟨4, 4, 4⟩)]

/-- A mesh from a file. -/
def mesh : Node Float := .leaf {} (.imported "part.stl" none none)

theorem builders_splice_cutWord :
    (∀ tag op, cutWord ≠ .compose tag op []) ∧
      (cutWord.unionWith mesh).IsSplice .union cutWord mesh ∧
      (cutWord.intersectWith mesh).IsSplice .intersection cutWord mesh ∧
      (cutWord.subtract mesh).IsSplice .difference cutWord mesh := by
  have hoperands : ∀ tag op, cutWord ≠ .compose tag op [] := by
    rintro tag op h
    cases h
  exact ⟨hoperands, builders_splice hoperands mesh⟩

/-! ## §4. Subtractions. -/

theorem extents_subtractAll {base : Node α} (h : base ≠ .compose {} .difference [])
    (cutters : List (Node α)) : (base.subtractAll cutters).extents = base.extents := by
  have hoperands : base.operandsFor .difference ≠ [] :=
    fun hnil => h (operandsFor_eq_nil_iff.mp hnil)
  unfold subtractAll composeWith
  rw [extents_compose, List.map_append]
  rcases base.operandsFor_cases .difference with hone | hcomposite
  · rw [hone]
    rfl
  · -- The first operand of the base is the first one of the result.
    obtain ⟨first, rest, hsplit⟩ := List.exists_cons_of_ne_nil hoperands
    rw [hsplit] at hcomposite ⊢
    rw [hcomposite, extents_compose]
    rfl

/-- **Subtracting keeps the box.** Whatever is subtracted from a base, every edge reads what it
reads of the base. The one base of which that may fail is a plain difference of nothing, whose
edges are all unknown: the first cutter takes its place, and its edges would have to be unknown
for the same reason. -/
theorem subtractAll_keeps_iff (base : Node α) (cutters : List (Node α)) :
    (∀ e, (base.subtractAll cutters).extents.get e = base.extents.get e) ↔
      (base = .compose {} .difference [] → ∀ c ∈ cutters.head?,
        ∀ e, c.extents.get e = .error (.emptyComposite "difference")) := by
  by_cases hbase : base = .compose {} .difference []
  · subst hbase
    have hnothing (e : Edge) : (Node.compose {} .difference [] : Node α).extents.get e
        = .error (.emptyComposite "difference") := Extents.get_ofFn _ e
    cases cutters with
    | nil => exact iff_of_true (fun _ => rfl) fun _ _ hc => absurd hc nofun
    | cons c rest =>
      have hfirst : ((Node.compose {} .difference []).subtractAll (c :: rest)).extents
          = c.extents := extents_compose _ _ _
      simp only [hfirst, hnothing, List.head?_cons, Option.mem_some_iff, forall_eq',
        forall_const]
  · refine iff_of_true (fun e => ?_) fun h => absurd h hbase
    rw [extents_subtractAll hbase]

/-- A difference of nothing. -/
def nothing : Node ℚ := .compose {} .difference []

/-- A brick of side two around the origin. -/
def brick : Node ℚ := .leaf {} (.cube ⟨2, 2, 2⟩)

/-- **What is subtracted from nothing is the base.** No edge of a difference of nothing is known,
and with a brick subtracted from it, its left edge is the brick's. -/
theorem subtractAll_fromNothing :
    nothing.extents.get .left = .error (.emptyComposite "difference") ∧
      (nothing.subtractAll [brick]).extents.get .left = .ok (-1) ∧
      ¬ ∀ e, (nothing.subtractAll [brick]).extents.get e = nothing.extents.get e := by
  have hnothing : nothing.extents.get .left = .error (.emptyComposite "difference") := rfl
  have hleft : (nothing.subtractAll [brick]).extents.get .left = .ok (-1) := by decide +kernel
  refine ⟨hnothing, hleft, fun hkeeps => ?_⟩
  have hsame := hkeeps .left
  rw [hleft, hnothing] at hsame
  cases hsame

end Node

end SolidTree
