/-
  SolidTree.Proofs.Drawing.Reading
  ────────────────────────────────
  **SOURCE TEXT IS ONE STATEMENT, WHATEVER ITS STRINGS ARE.**

  Whatever a tree is drawn as is grammatical: calls and keys have names, and
  a set operation is never drawn without its block.  So the text of a tree
  is read as the statement that was drawn, and as nothing else; and since
  drawing does not look into strings, other contents change the comments and
  the texts of that statement and nothing else.

  Main result:
    * `source_parses` — the source of a tree is exactly the statement drawn,
      also after other contents have been filled in
-/
import SolidTree.Proofs.Drawing.Arrangement
import SolidTree.Proofs.Drawing.Contents
import SolidTree.Proofs.Grammar.Writing

namespace SolidTree

open Grammar

/-! ## §1. Names of calls and keys. -/

/-- The name of a call that is no set operation. -/
def IsCallName (name : List Char) : Prop :=
  IsName name ∧ name ∉ ["union".toList, "difference".toList, "intersection".toList]

instance : DecidablePred IsCallName := fun _ => inferInstanceAs (Decidable (_ ∧ _))

namespace Arguments

variable {α : Type}

/-- Every key is a name. -/
def HasNames (a : Arguments α) : Prop := ∀ entry ∈ a.entries, ∀ key ∈ entry.1, IsName key.toList

theorem hasNames_empty : ({} : Arguments α).HasNames := List.forall_mem_nil _

theorem HasNames.append {a : Arguments α} (h : a.HasNames) {entry : Option String × Value α}
    (hkey : ∀ key ∈ entry.1, IsName key.toList) : HasNames ⟨a.entries ++ [entry]⟩ :=
  List.forall_mem_append.mpr ⟨h, List.forall_mem_singleton.mpr hkey⟩

theorem HasNames.add {a : Arguments α} (h : a.HasNames) {key : String} (v : Value α)
    (hkey : IsName key.toList) : (a.add key v).HasNames :=
  h.append fun _ hk => Option.some.inj hk ▸ hkey

theorem HasNames.addSome {a : Arguments α} (h : a.HasNames) {key : String}
    (v : Option (Value α)) (hkey : IsName key.toList) : (a.addSome key v).HasNames := by
  cases v with
  | none => exact h
  | some v => exact h.add v hkey

theorem HasNames.addPositional {a : Arguments α} (h : a.HasNames) (v : Value α) :
    (a.addPositional v).HasNames := by
  refine h.append fun key hk => ?_
  cases hk

end Arguments

theorem Primitive.isCallName_name {α : Type} (shape : Primitive α) :
    IsCallName shape.name.toList := by
  cases shape <;> (dsimp only [name]; decide)

theorem Operator.isCallName_name {α : Type} (op : Operator α) : IsCallName op.name.toList := by
  cases op <;> (dsimp only [name]; decide)

theorem SetOperation.isName_name (op : SetOperation) : IsName op.name.toList := by
  cases op <;> decide

theorem TextShape.hasNames_arguments {α : Type} (t : TextShape α) : t.arguments.HasNames := by
  unfold TextShape.arguments
  repeat refine Arguments.HasNames.addSome ?_ _ (by decide)
  repeat refine Arguments.HasNames.add ?_ _ (by decide)
  exact Arguments.hasNames_empty

theorem Primitive.hasNames_arguments {α : Type} (shape : Primitive α) :
    shape.arguments.HasNames := by
  cases shape with
  | cylinder height diameter topDiameter segments =>
    cases topDiameter
    all_goals
      repeat refine Arguments.HasNames.add ?_ _ (by decide)
      exact Arguments.hasNames_empty
  | text shape => exact shape.hasNames_arguments
  | _ =>
    dsimp only [Primitive.arguments]
    repeat' first
      | refine Arguments.HasNames.add ?_ _ (by decide)
      | refine Arguments.HasNames.addSome ?_ _ (by decide)
      | exact Arguments.hasNames_empty

theorem Operator.hasNames_arguments {α : Type} (op : Operator α) : op.arguments.HasNames := by
  cases op
  all_goals
    dsimp only [Operator.arguments]
    repeat' first
      | refine Arguments.HasNames.add ?_ _ (by decide)
      | refine Arguments.HasNames.addSome ?_ _ (by decide)
      | refine Arguments.HasNames.addPositional ?_ _
      | exact Arguments.hasNames_empty

/-! ## §2. Grammatical statements. -/

section

variable (precision : UInt32)

/-- The statement is written for a grammatical phrase. -/
def Statement.IsGrammatical (s : Statement Float) : Prop := (s.phrase precision).IsGrammatical

/-- If there is a statement, it is grammatical. -/
def Drawn.IsGrammatical (r : Drawn Float) : Prop := ∀ s, r = .ok s → s.IsGrammatical precision

/-- What is drawn is grammatical, and so is what is put into a block. -/
structure Drawing.IsGrammatical (d : Drawing Float) : Prop where
  alone : Drawn.IsGrammatical precision d.alone
  items : ∀ item ∈ d.items, Drawn.IsGrammatical precision item

end

variable {precision : UInt32}

theorem heading_isGrammatical {h : Head Float} (hname : IsName h.name.toList)
    (hkeys : h.arguments.HasNames) : (h.heading precision).IsGrammatical := by
  refine ⟨hname, fun argument hargument key hkey => ?_⟩
  obtain ⟨entry, hentry, rfl⟩ := List.mem_map.mp hargument
  obtain ⟨k, hk, rfl⟩ := Option.map_eq_some_iff.mp hkey
  exact hkeys entry hentry k hk

namespace Statement

theorem isGrammatical_call {h : Head Float} (hname : IsCallName h.name.toList)
    (hkeys : h.arguments.HasNames) : (call h).IsGrammatical precision :=
  .call (heading_isGrammatical hname.1 hkeys) hname.2

theorem isGrammatical_over {h : Head Float} (hname : IsCallName h.name.toList)
    (hkeys : h.arguments.HasNames) {s : Statement Float} (hs : s.IsGrammatical precision) :
    (Statement.over h s).IsGrammatical precision :=
  .onto (heading_isGrammatical hname.1 hkeys) hname.2 hs

theorem isGrammatical_block {h : Head Float} (hname : IsName h.name.toList)
    (hkeys : h.arguments.HasNames) (opening : Opening) {items : List (Statement Float)}
    (hitems : ∀ s ∈ items, s.IsGrammatical precision) :
    (block h opening items).IsGrammatical precision := by
  refine .block (heading_isGrammatical hname hkeys) ?_
  rw [phrasesOf_eq_map]
  exact List.forall_mem_map.mpr hitems

/-- Comments are not looked at. -/
theorem IsGrammatical.withHead {s : Statement Float} (hs : s.IsGrammatical precision)
    (comments : List String) :
    (s.withHead { s.head with comments := comments }).IsGrammatical precision := by
  match s, hs with
  | .call _, .call h hname => exact .call ⟨h.name, h.keys⟩ hname
  | .over _ _, .onto h hname hoperand => exact .onto ⟨h.name, h.keys⟩ hname hoperand
  | .block _ _ _, .block h hitems => exact .block ⟨h.name, h.keys⟩ hitems

theorem IsGrammatical.underComment {s : Statement Float} (hs : s.IsGrammatical precision)
    (comment : Option String) : (s.underComment comment).IsGrammatical precision := by
  unfold Statement.underComment
  cases comment with
  | none => exact hs
  | some comment =>
    dsimp only
    split
    · exact hs
    · exact hs.withHead _

end Statement

namespace Drawing

theorem isGrammatical_single {r : Drawn Float} (h : Drawn.IsGrammatical precision r) :
    (single r).IsGrammatical precision :=
  ⟨h, List.forall_mem_singleton.mpr h⟩

theorem isGrammatical_error (fault : Fault Float) :
    Drawn.IsGrammatical precision (.error fault) := by
  intro s hs
  cases hs

theorem isGrammatical_failed (fault : Fault Float) :
    (single (.error fault)).IsGrammatical precision :=
  isGrammatical_single (isGrammatical_error fault)

theorem isGrammatical_commented {r : Drawn Float} (h : Drawn.IsGrammatical precision r)
    (comment : Option String) : Drawn.IsGrammatical precision (r.map (·.underComment comment)) := by
  intro s hs
  obtain ⟨bare, hbare, rfl⟩ := Outcome.map_eq_ok.mp hs
  exact (h bare hbare).underComment comment

variable {operands : List (Drawing Float)}

/-- Every statement of a block is grammatical. -/
theorem isGrammatical_block (h : ∀ o ∈ operands, o.IsGrammatical precision)
    {items : List (Statement Float)} (hitems : block operands = .ok items) :
    ∀ s ∈ items, s.IsGrammatical precision := by
  intro s hs
  match operands with
  | [] =>
    obtain ⟨o, ho, -⟩ := Outcome.exists_of_mapM_eq_ok hitems s hs
    cases ho
  | [only] =>
    obtain ⟨item, hitem, hok⟩ := Outcome.exists_of_mapM_eq_ok hitems s hs
    exact (h only List.mem_cons_self).items item hitem s hok
  | first :: second :: rest =>
    obtain ⟨o, ho, hok⟩ := Outcome.exists_of_mapM_eq_ok hitems s hs
    exact (h o ho).alone s hok

/-- A block under a call is grammatical. -/
theorem isGrammatical_group {head : Head Float} (hname : IsName head.name.toList)
    (hkeys : head.arguments.HasNames) (opening : Opening)
    (h : ∀ o ∈ operands, o.IsGrammatical precision) :
    Drawn.IsGrammatical precision ((block operands).map (.block head opening)) := by
  intro s hs
  obtain ⟨items, hitems, rfl⟩ := Outcome.map_eq_ok.mp hs
  exact Statement.isGrammatical_block hname hkeys opening (isGrammatical_block h hitems)

theorem isGrammatical_apply (tag : Tag) (op : Operator Float)
    (h : ∀ o ∈ operands, o.IsGrammatical precision) :
    (Drawing.apply tag op operands).IsGrammatical precision := by
  unfold Drawing.apply
  refine isGrammatical_single (isGrammatical_commented ?_ tag.comment)
  match operands with
  | [] => exact isGrammatical_error _
  | [only] =>
    intro s hs
    obtain ⟨inner, hinner, rfl⟩ := Outcome.map_eq_ok.mp hs
    refine Statement.isGrammatical_over ?_ ?_ ((h only List.mem_cons_self).alone inner hinner)
    · exact op.isCallName_name
    · exact op.hasNames_arguments
  | first :: second :: rest =>
    refine isGrammatical_group ?_ ?_ .nextLine h
    · exact op.isCallName_name.1
    · exact op.hasNames_arguments

theorem isGrammatical_compose (tag : Tag) (op : SetOperation)
    (h : ∀ o ∈ operands, o.IsGrammatical precision) :
    (Drawing.compose tag op operands).IsGrammatical precision := by
  have halone : Drawn.IsGrammatical precision (Drawing.compose tag op operands).alone := by
    unfold Drawing.compose
    rw [apply_ite Drawing.alone, single, ite_self]
    refine isGrammatical_commented ?_ tag.comment
    split
    next only _ => exact (h only List.mem_cons_self).alone
    next =>
      split
      next => exact isGrammatical_error _
      next =>
        refine isGrammatical_group ?_ ?_ .sameLine h
        · exact SetOperation.isName_name _
        · exact Arguments.hasNames_empty
  by_cases hputs : op = .union ∧ tag.isPlain = true ∧ operands ≠ []
  · -- A plain union puts its operands into a block of its own.
    unfold Drawing.compose at halone ⊢
    rw [if_pos hputs] at halone ⊢
    exact ⟨halone, List.forall_mem_map.mpr fun o ho => (h o ho).alone⟩
  · unfold Drawing.compose at halone ⊢
    rw [if_neg hputs] at halone ⊢
    exact isGrammatical_single halone

/-! ## §3. Grammatical drawings of trees. -/

theorem isGrammatical_operatorOver (op : Operator Float) {s : Statement Float}
    (hs : s.IsGrammatical precision) : (op.over s).IsGrammatical precision := by
  refine Statement.isGrammatical_over ?_ ?_ hs
  · exact op.isCallName_name
  · exact op.hasNames_arguments

theorem isGrammatical_hullOfTwo {s t : Statement Float} (hs : s.IsGrammatical precision)
    (ht : t.IsGrammatical precision) : (hullOfTwo s t).IsGrammatical precision :=
  Statement.isGrammatical_block (by decide) Arguments.hasNames_empty .nextLine
    (List.forall_mem_cons.mpr ⟨hs, List.forall_mem_singleton.mpr ht⟩)

theorem isGrammatical_call (leaf : Leaf Float) : leaf.call.IsGrammatical precision := by
  refine Statement.IsGrammatical.underComment (Statement.isGrammatical_call ?_ ?_) leaf.tag.comment
  · exact leaf.shape.isCallName_name
  · exact leaf.shape.hasNames_arguments

theorem isGrammatical_drawChain {inner : Statement Float} (hinner : inner.IsGrammatical precision)
    (ops : List (Operator Float)) (moved : Option (Vec3 Float)) :
    (drawChain inner ops moved).IsGrammatical precision := by
  induction ops generalizing moved with
  | nil =>
    cases moved with
    | none => exact hinner
    | some v => exact isGrammatical_operatorOver (.translate v) hinner
  | cons op rest ih =>
    have hover := isGrammatical_operatorOver op (ih none)
    cases op with
    | translate w =>
      cases moved with
      | none => exact hover
      | some v => exact isGrammatical_operatorOver (.translate (v + w)) (ih none)
    | slide v =>
      have hstill := isGrammatical_hullOfTwo (ih none) (ih (if v.isZero then none else some v))
      cases moved with
      | none => exact hstill
      | some u => exact isGrammatical_operatorOver (.translate u) hstill
    | _ =>
      cases moved with
      | none => exact hover
      | some u => exact isGrammatical_operatorOver (.translate u) hover

theorem isGrammatical_slide (tag : Tag) (offset : Vec3 Float) (leaves : List (Leaf Float)) :
    (Drawing.slide tag offset leaves).IsGrammatical precision := by
  refine isGrammatical_single (isGrammatical_compose tag .union ?_).alone
  refine List.forall_mem_map.mpr fun leaf _ => isGrammatical_single fun s hs => ?_
  cases hs
  exact isGrammatical_drawChain (isGrammatical_call leaf) _ none

/-- An operator that a finish puts over a set operation. -/
theorem isGrammatical_underOperator (tag : Tag) (operator : Operator Float) (op : SetOperation)
    (h : ∀ o ∈ operands, o.IsGrammatical precision) :
    Drawing.IsGrammatical precision (match op with
      | .union => .apply tag operator operands
      | _ => .apply tag operator [.compose {} op operands]) := by
  have hall := isGrammatical_apply tag operator h
  have hone := isGrammatical_apply tag operator
    (List.forall_mem_singleton.mpr (isGrammatical_compose {} op h))
  cases op with
  | union => exact hall
  | _ => exact hone

theorem isGrammatical_finished (tag : Tag) (finish : Option Finish) (op : SetOperation)
    (h : ∀ o ∈ operands, o.IsGrammatical precision) :
    (Drawing.finished tag finish op operands).IsGrammatical precision := by
  cases finish with
  | none => exact isGrammatical_compose tag op h
  | some finish =>
    cases finish with
    | asBuilt => exact isGrammatical_compose tag op h
    | revolve segments => exact isGrammatical_underOperator tag _ op h
    | hullPair =>
      unfold Drawing.finished
      dsimp only
      split
      · exact isGrammatical_underOperator tag .hull op h
      · exact isGrammatical_failed _

theorem isGrammatical_part (tag : Tag) {members : Assembly (Drawing Float)}
    (h : ∀ m ∈ members.listed, m.IsGrammatical precision) :
    (Drawing.part tag members).IsGrammatical precision := by
  unfold Drawing.part
  split
  next => exact isGrammatical_failed _
  next op operands harrange =>
    have hoperands := Assembly.arrange_forall
      (fun op xs hxs => isGrammatical_compose {} op hxs) h harrange
    exact isGrammatical_single (isGrammatical_finished tag members.finish op hoperands).alone

end Drawing

/-- Whatever is drawn is grammatical. -/
theorem isGrammatical_draw (n : Node Float) : n.draw.IsGrammatical precision := by
  induction Node.everywhere_of_forall (fun _ => trivial) n with
  | @intro n _ _ ih =>
    cases n with
    | leaf tag shape =>
      refine Drawing.isGrammatical_single fun s hs => ?_
      cases hs
      exact Drawing.isGrammatical_call _
    | apply tag op children =>
      have hchildren : ∀ o ∈ drawAll children, o.IsGrammatical precision := by
        rw [drawAll_eq_map]
        exact List.forall_mem_map.mpr ih
      have hall := Drawing.isGrammatical_apply tag op hchildren
      cases op with
      | slide offset =>
        rw [Node.draw]
        split
        · exact Drawing.isGrammatical_failed _
        · exact Drawing.isGrammatical_slide tag offset _
      | _ => exact hall
    | compose tag op operands =>
      rw [Node.draw, drawAll_eq_map]
      exact Drawing.isGrammatical_compose tag op (List.forall_mem_map.mpr ih)
    | part tag members =>
      obtain ⟨name, children, holes, misc, finish⟩ := members
      refine Drawing.isGrammatical_part tag ?_
      rw [listed_drawSlots tag ⟨name, children, holes, misc, finish⟩]
      exact List.forall_mem_map.mpr ih

/-! ## §4. The source text of a tree. -/

/-- **The source of a tree is one statement, and strings do not change which.** Lines are
indented by spaces and tabs. The text is read as the statement that is drawn and as no
other. And if the strings of the tree are the contents `c` of an outline, then any other
contents `c'` of the outline are drawn as well, and their text is read as the same
statement with the other contents in the same places. -/
theorem source_parses {n : Node Float} {format : Format} {text : String}
    (hindent : ∀ ch ∈ format.indent.toList, ch = ' ' ∨ ch = '\t')
    (htext : n.source format = .ok text) :
    ∃ s, n.statement = .ok s ∧
      (∀ p, Parses text p ↔ p = s.phrase format.precision) ∧
      ∀ (outline : Node Float) (c c' : Contents), n = outline.filled c →
        ∃ s₀ text', outline.statement = .ok s₀ ∧ s = s₀.filled c ∧
          (outline.filled c').source format = .ok text' ∧
          ∀ p, Parses text' p ↔ p = (s₀.filled c').phrase format.precision := by
  have hspaces : format.indent.toList.all isSpace = true := by
    refine List.all_eq_true.mpr fun ch hch => ?_
    rcases hindent ch hch with rfl | rfl <;> rfl
  have hparses : ∀ (n : Node Float) (s : Statement Float), n.statement = .ok s →
      ∀ p, Parses (s.text format) p ↔ p = s.phrase format.precision :=
    fun n s hs => parses_text hspaces ((isGrammatical_draw n).alone s hs)
  obtain ⟨s, hs, rfl⟩ := Outcome.map_eq_ok.mp htext
  refine ⟨s, hs, hparses n s hs, fun outline c c' hn => ?_⟩
  subst hn
  rw [statement_filled] at hs
  obtain ⟨s₀, hs₀, rfl⟩ := Outcome.map_eq_ok.mp hs
  have hs' : (outline.filled c').statement = .ok (s₀.filled c') := by
    rw [statement_filled, hs₀]
    rfl
  refine ⟨s₀, (s₀.filled c').text format, hs₀, rfl, ?_, hparses _ _ hs'⟩
  unfold Node.source
  rw [hs']
  rfl

/-- A sign whose strings look like code. -/
def sign : Node Float :=
  .apply { modifier := .debug, comment := some "front\n\x7d" } (.color "\"red" none)
    [.leaf {} (.text { text := "\");", size := 10 }), .leaf {} (.square 40 12)]

theorem source_parses_sign :
    (∀ ch ∈ ({} : Format).indent.toList, ch = ' ' ∨ ch = '\t') ∧
      ∃ text s, sign.source {} = .ok text ∧ sign.statement = .ok s ∧
        ∀ p, Parses text p ↔ p = s.phrase ({} : Format).precision := by
  have hindent : ∀ ch ∈ ({} : Format).indent.toList, ch = ' ' ∨ ch = '\t' :=
    List.forall_mem_cons.mpr ⟨.inl rfl, List.forall_mem_singleton.mpr (.inl rfl)⟩
  obtain ⟨text, htext⟩ : ∃ text, sign.source {} = .ok text := ⟨_, rfl⟩
  obtain ⟨s, hs, hparses, -⟩ := source_parses hindent htext
  exact ⟨hindent, text, s, htext, hs, hparses⟩

end SolidTree
