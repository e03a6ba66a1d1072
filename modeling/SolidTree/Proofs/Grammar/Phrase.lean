/-
  SolidTree.Proofs.Grammar.Phrase
  ───────────────────────────────
  **THE GRAMMAR OF SOURCE TEXT.**

  A phrase is the syntax tree of a statement, and its tokens are what the
  grammar spells it with:

      statement  :=  comment* modifier? name ( arguments ) body
      body       :=  ;  |  statement  |  { statement* }
      argument   :=  name = value  |  value
      value      :=  word  |  text  |  [ values ]

  where arguments and values are separated by commas, and a set operation
  takes a block.  A text is a statement of the grammar iff its tokens are
  those of a grammatical phrase.

  Main results:
    * `readable_phrase` — a phrase can be told from its tokens, also if
      others follow
    * `parses_unique` — a text is at most one statement
-/
import SolidTree.Proofs.Grammar.Lexer
import SolidTree.Tree.Node

namespace SolidTree.Grammar

/-! ## §1. Phrases. -/

/-- The value of an argument. -/
inductive Datum where
  /-- A number or a truth value. -/
  | word (cs : List Char)
  | text (cs : List Char)
  | list (items : List Datum)

/-- What stands before the body of a statement. -/
structure Heading where
  comments : List (List Char)
  modifier : Modifier
  name : List Char
  arguments : List (Option (List Char) × Datum)

/-- A statement. -/
inductive Phrase where
  | call (heading : Heading)
  /-- A call that takes the statement after it. -/
  | onto (heading : Heading) (operand : Phrase)
  | block (heading : Heading) (items : List Phrase)

/-! ## §2. What a phrase is spelled with. -/

/-- Spellings with commas between them. -/
def commaSeparated : List (List Token) → List Token
  | [] => []
  | ts :: rest => ts ++ rest.flatMap (.mark ',' :: ·)

mutual

/-- The tokens of a value. -/
def Datum.tokens : Datum → List Token
  | .word cs => [.word cs]
  | .text cs => [.text cs]
  | .list items => .mark '[' :: (commaSeparated (spellings items) ++ [.mark ']'])

/-- The tokens of each value. -/
def spellings : List Datum → List (List Token)
  | [] => []
  | d :: rest => d.tokens :: spellings rest

end

/-- The tokens of an argument. -/
def argumentTokens : Option (List Char) × Datum → List Token
  | (none, d) => d.tokens
  | (some key, d) => .word key :: .mark '=' :: d.tokens

/-- The tokens of a call without its comments and its body. -/
def Heading.callTokens (h : Heading) : List Token :=
  h.modifier.sign.map .mark ++
    .word h.name :: .mark '(' :: (commaSeparated (h.arguments.map argumentTokens) ++ [.mark ')'])

/-- The tokens before the body of a statement. -/
def Heading.tokens (h : Heading) : List Token := h.comments.map .comment ++ h.callTokens

mutual

/-- The tokens of a statement. -/
def Phrase.tokens : Phrase → List Token
  | .call heading => heading.tokens ++ [.mark ';']
  | .onto heading operand => heading.tokens ++ operand.tokens
  | .block heading items => heading.tokens ++ .mark '\x7b' :: (itemTokens items ++ [.mark '\x7d'])

/-- The tokens of statements in a row. -/
def itemTokens : List Phrase → List Token
  | [] => []
  | p :: rest => p.tokens ++ itemTokens rest

end

theorem spellings_eq_map (ds : List Datum) : spellings ds = ds.map Datum.tokens := by
  induction ds with
  | nil => rfl
  | cons d rest ih => rw [spellings, ih, List.map_cons]

/-! ## §3. Grammatical phrases. -/

/-- A word that does not begin like a number. -/
def IsName (cs : List Char) : Prop :=
  IsWord cs ∧ ∀ c ∈ cs.head?, (c.isAlpha || c == '_' || c == '$') = true

instance : DecidablePred IsName := fun cs =>
  decidable_of_iff (IsWord cs ∧ cs.head?.all (fun c => c.isAlpha || c == '_' || c == '$') = true)
    (by cases cs <;> simp [IsName])

/-- Names and keys are names. -/
structure Heading.IsGrammatical (h : Heading) : Prop where
  name : IsName h.name
  keys : ∀ argument ∈ h.arguments, ∀ key ∈ argument.1, IsName key

/-- The call is a set operation. -/
def Heading.TakesBlock (h : Heading) : Prop :=
  h.name ∈ ["union".toList, "difference".toList, "intersection".toList]

/-- Every heading is grammatical, and set operations have blocks. -/
inductive Phrase.IsGrammatical : Phrase → Prop where
  | call {heading : Heading} (h : heading.IsGrammatical) (hname : ¬ heading.TakesBlock) :
    IsGrammatical (.call heading)
  | onto {heading : Heading} {operand : Phrase} (h : heading.IsGrammatical)
    (hname : ¬ heading.TakesBlock) (hoperand : operand.IsGrammatical) :
    IsGrammatical (.onto heading operand)
  | block {heading : Heading} {items : List Phrase} (h : heading.IsGrammatical)
    (hitems : ∀ p ∈ items, p.IsGrammatical) : IsGrammatical (.block heading items)

/-- The text is the statement `p`. -/
def Parses (text : String) (p : Phrase) : Prop :=
  tokens? text = some p.tokens ∧ p.IsGrammatical

/-! ## §4. Lists. -/

/-- What comes behind an element of a list: a comma or the end of the list. -/
def Ends (r : List Token) : Prop := ∃ c rest, r = .mark c :: rest ∧ c ∈ [',', ')', ']']

/-- The element is told from what it is spelled with as an element of a list. -/
def Readable {β : Type} (spell : β → List Token) (x : β) : Prop :=
  ∀ y r r', Ends r → Ends r' → spell x ++ r = spell y ++ r' → x = y ∧ r = r'

section Lists

variable {β : Type} {spell : β → List Token} {xs ys : List β} {close : Char} {r r' : List Token}

theorem ends_close (hclose : close ∈ [')', ']']) (r : List Token) : Ends (.mark close :: r) :=
  ⟨close, r, rfl, List.mem_cons_of_mem _ hclose⟩

/-- Elements behind commas. -/
theorem ends_more (hclose : close ∈ [')', ']']) (spellings : List (List Token))
    (r : List Token) : Ends (spellings.flatMap (.mark ',' :: ·) ++ .mark close :: r) := by
  cases spellings with
  | nil => exact ends_close hclose r
  | cons ts rest => exact ⟨',', _, rfl, List.mem_cons_self⟩

theorem more_inj (hclose : close ∈ [')', ']']) (hreadable : ∀ x ∈ xs, Readable spell x)
    (h : (xs.map spell).flatMap (.mark ',' :: ·) ++ .mark close :: r
      = (ys.map spell).flatMap (.mark ',' :: ·) ++ .mark close :: r') :
    xs = ys ∧ r = r' := by
  have hcomma : close ≠ ',' := by
    rintro rfl
    revert hclose
    decide
  induction xs generalizing ys with
  | nil =>
    cases ys with
    | nil =>
      cases h
      exact ⟨rfl, rfl⟩
    | cons y ys =>
      injection h with hfirst
      injection hfirst with hfirst
      exact absurd hfirst hcomma
  | cons x xs ih =>
    cases ys with
    | nil =>
      injection h with hfirst
      injection hfirst with hfirst
      exact absurd hfirst.symm hcomma
    | cons y ys =>
      simp only [List.map_cons, List.flatMap_cons, List.cons_append, List.append_assoc,
        List.cons.injEq, true_and] at h
      obtain ⟨rfl, hrest⟩ := hreadable x List.mem_cons_self y _ _
        (ends_more hclose _ _) (ends_more hclose _ _) h
      obtain ⟨rfl, rfl⟩ := ih (fun x hx => hreadable x (List.mem_cons_of_mem _ hx)) hrest
      exact ⟨rfl, rfl⟩

/-- A list is told from what it is spelled with, if no element is spelled with nothing. -/
theorem commaSeparated_inj (hclose : close ∈ [')', ']'])
    (hreadable : ∀ x ∈ xs, Readable spell x) (hspell : ∀ x r, ¬ Ends (spell x ++ r))
    (h : commaSeparated (xs.map spell) ++ .mark close :: r
      = commaSeparated (ys.map spell) ++ .mark close :: r') :
    xs = ys ∧ r = r' := by
  cases xs with
  | nil =>
    cases ys with
    | nil =>
      cases h
      exact ⟨rfl, rfl⟩
    | cons y ys =>
      have hends := ends_close hclose r
      have h : .mark close :: r = _ := h
      rw [h, List.map_cons, commaSeparated, List.append_assoc] at hends
      exact absurd hends (hspell y _)
  | cons x xs =>
    cases ys with
    | nil =>
      have hends := ends_close hclose r'
      have h : _ = .mark close :: r' := h
      rw [← h, List.map_cons, commaSeparated, List.append_assoc] at hends
      exact absurd hends (hspell x _)
    | cons y ys =>
      rw [List.map_cons, List.map_cons, commaSeparated, commaSeparated, List.append_assoc,
        List.append_assoc] at h
      obtain ⟨rfl, hrest⟩ := hreadable x List.mem_cons_self y _ _
        (ends_more hclose _ _) (ends_more hclose _ _) h
      obtain ⟨rfl, rfl⟩ :=
        more_inj hclose (fun x hx => hreadable x (List.mem_cons_of_mem _ hx)) hrest
      exact ⟨rfl, rfl⟩

end Lists

/-! ## §5. Values and arguments. -/

theorem not_ends_datum (d : Datum) (r : List Token) : ¬ Ends (d.tokens ++ r) := by
  rintro ⟨c, rest, h, hc⟩
  cases d with
  | list items =>
    injection h with hfirst
    injection hfirst with hfirst
    subst hfirst
    revert hc
    decide
  | _ => cases h

mutual

/-- A value is told from its tokens. -/
theorem readable_datum : (d : Datum) → Readable Datum.tokens d
  | .word cs => fun e r r' _ _ h => by
    cases e with
    | word cs' =>
      cases h
      exact ⟨rfl, rfl⟩
    | _ => cases h
  | .text cs => fun e r r' _ _ h => by
    cases e with
    | text cs' =>
      cases h
      exact ⟨rfl, rfl⟩
    | _ => cases h
  | .list items => fun e r r' _ _ h => by
    cases e with
    | list items' =>
      simp only [Datum.tokens, spellings_eq_map, List.cons_append, List.append_assoc,
        List.nil_append, List.cons.injEq, true_and] at h
      obtain ⟨rfl, rfl⟩ := commaSeparated_inj (by decide) (readable_data items) not_ends_datum h
      exact ⟨rfl, rfl⟩
    | _ => cases h

theorem readable_data : (ds : List Datum) → ∀ d ∈ ds, Readable Datum.tokens d
  | [] => List.forall_mem_nil _
  | d :: rest => List.forall_mem_cons.mpr ⟨readable_datum d, readable_data rest⟩

end

theorem not_ends_argument (a : Option (List Char) × Datum) (r : List Token) :
    ¬ Ends (argumentTokens a ++ r) := by
  obtain ⟨key, d⟩ := a
  cases key with
  | none => exact not_ends_datum d r
  | some key =>
    rintro ⟨c, rest, h, -⟩
    cases h

/-- No value goes on with an equals sign, so a word before one is a key. -/
theorem datum_ne_key {d : Datum} {key : List Char} {r s : List Token} (hr : Ends r) :
    d.tokens ++ r ≠ .word key :: .mark '=' :: s := by
  intro h
  cases d with
  | word cs =>
    obtain ⟨c, rest, rfl, hc⟩ := hr
    injection h with _ hrest
    injection hrest with hfirst
    injection hfirst with hfirst
    subst hfirst
    revert hc
    decide
  | _ => cases h

theorem readable_argument (a : Option (List Char) × Datum) : Readable argumentTokens a := by
  obtain ⟨key, d⟩ := a
  rintro ⟨key', e⟩ r r' hr hr' h
  cases key with
  | none =>
    cases key' with
    | none =>
      obtain ⟨rfl, rfl⟩ := readable_datum d e r r' hr hr' h
      exact ⟨rfl, rfl⟩
    | some key' => exact absurd h (datum_ne_key hr)
  | some key =>
    cases key' with
    | none => exact absurd h.symm (datum_ne_key hr')
    | some key' =>
      simp only [argumentTokens, List.cons_append, List.cons.injEq, Token.word.injEq,
        true_and] at h
      obtain ⟨rfl, hrest⟩ := h
      obtain ⟨rfl, rfl⟩ := readable_datum d e r r' hr hr' hrest
      exact ⟨rfl, rfl⟩

/-! ## §6. Statements. -/

/-- Comments end where something else begins. -/
theorem comments_inj {cs cs' : List (List Char)} {r r' : List Token}
    (hr : ∀ line rest, r ≠ .comment line :: rest) (hr' : ∀ line rest, r' ≠ .comment line :: rest)
    (h : cs.map .comment ++ r = cs'.map .comment ++ r') : cs = cs' ∧ r = r' := by
  induction cs generalizing cs' with
  | nil =>
    cases cs' with
    | nil => exact ⟨rfl, h⟩
    | cons line rest => exact absurd h (hr line _)
  | cons line cs ih =>
    cases cs' with
    | nil => exact absurd h.symm (hr' line _)
    | cons line' cs' =>
      simp only [List.map_cons, List.cons_append, List.cons.injEq, Token.comment.injEq] at h
      obtain ⟨rfl, hrest⟩ := h
      obtain ⟨rfl, rfl⟩ := ih hrest
      exact ⟨rfl, rfl⟩

theorem callTokens_ne_comment (h : Heading) (r : List Token) :
    ∀ line rest, h.callTokens ++ r ≠ .comment line :: rest := by
  intro line rest heq
  unfold Heading.callTokens at heq
  cases hmodifier : h.modifier <;> rw [hmodifier] at heq <;> cases heq

/-- A sign is told from the lack of one by the word behind it. -/
theorem sign_inj {m m' : Modifier} {name name' : List Char} {r r' : List Token}
    (h : m.sign.map .mark ++ .word name :: r = m'.sign.map .mark ++ .word name' :: r') :
    m = m' ∧ name = name' ∧ r = r' := by
  cases m <;> cases m' <;> cases h <;> exact ⟨rfl, rfl, rfl⟩

/-- A heading is told from its tokens, whatever follows. -/
theorem Heading.tokens_inj {h h' : Heading} {r r' : List Token}
    (heq : h.tokens ++ r = h'.tokens ++ r') : h = h' ∧ r = r' := by
  unfold Heading.tokens at heq
  rw [List.append_assoc, List.append_assoc] at heq
  obtain ⟨hcomments, hcall⟩ :=
    comments_inj (callTokens_ne_comment h r) (callTokens_ne_comment h' r') heq
  unfold Heading.callTokens at hcall
  simp only [List.append_assoc, List.cons_append, List.nil_append] at hcall
  obtain ⟨hmodifier, hname, hrest⟩ := sign_inj hcall
  rw [List.cons.injEq] at hrest
  replace hrest := hrest.2
  obtain ⟨harguments, hr⟩ := commaSeparated_inj (by decide) (fun a _ => readable_argument a)
    not_ends_argument hrest
  refine ⟨?_, hr⟩
  cases h
  cases h'
  cases hcomments
  cases hmodifier
  cases hname
  cases harguments
  rfl

/-- A token that a statement may begin with. -/
def Begins (t : Token) : Prop := ∀ c ∈ [';', '\x7b', '\x7d'], t ≠ .mark c

theorem begins_heading (h : Heading) (r : List Token) :
    ∃ t rest, h.tokens ++ r = t :: rest ∧ Begins t := by
  unfold Heading.tokens Heading.callTokens
  cases h.comments with
  | cons line lines => exact ⟨_, _, rfl, fun c _ => nofun⟩
  | nil =>
    cases h.modifier with
    | none => exact ⟨_, _, rfl, fun c _ => nofun⟩
    | _ =>
      refine ⟨_, _, rfl, fun c hc heq => ?_⟩
      injection heq with heq
      subst heq
      revert hc
      decide

theorem begins_phrase (p : Phrase) (r : List Token) :
    ∃ t rest, p.tokens ++ r = t :: rest ∧ Begins t := by
  cases p <;> rw [Phrase.tokens, List.append_assoc] <;> exact begins_heading _ _

/-- Where a body begins, no mark of another body stands. -/
theorem phrase_ne_mark {c : Char} (hc : c ∈ [';', '\x7b', '\x7d']) (p : Phrase)
    (r s : List Token) : p.tokens ++ r ≠ .mark c :: s := by
  obtain ⟨t, rest, hp, hbegins⟩ := begins_phrase p r
  rw [hp]
  intro h
  injection h with h
  exact hbegins c hc h

mutual

/-- A statement is told from its tokens, whatever follows. -/
theorem readable_phrase : (p q : Phrase) → (r r' : List Token) →
    p.tokens ++ r = q.tokens ++ r' → p = q ∧ r = r'
  | .call h, q, r, r', heq => by
    rw [Phrase.tokens, List.append_assoc] at heq
    cases q <;> rw [Phrase.tokens, List.append_assoc] at heq <;>
      obtain ⟨rfl, hbody⟩ := Heading.tokens_inj heq
    case call =>
      cases hbody
      exact ⟨rfl, rfl⟩
    case onto => exact absurd hbody.symm (phrase_ne_mark (by decide) _ _ _)
    case block => cases hbody
  | .onto h p, q, r, r', heq => by
    rw [Phrase.tokens, List.append_assoc] at heq
    cases q <;> rw [Phrase.tokens, List.append_assoc] at heq <;>
      obtain ⟨rfl, hbody⟩ := Heading.tokens_inj heq
    case call => exact absurd hbody (phrase_ne_mark (by decide) _ _ _)
    case onto =>
      obtain ⟨rfl, rfl⟩ := readable_phrase p _ r r' hbody
      exact ⟨rfl, rfl⟩
    case block => exact absurd hbody (phrase_ne_mark (by decide) _ _ _)
  | .block h items, q, r, r', heq => by
    rw [Phrase.tokens, List.append_assoc] at heq
    cases q <;> rw [Phrase.tokens, List.append_assoc] at heq <;>
      obtain ⟨rfl, hbody⟩ := Heading.tokens_inj heq
    case call => cases hbody
    case onto => exact absurd hbody.symm (phrase_ne_mark (by decide) _ _ _)
    case block =>
      simp only [List.cons_append, List.append_assoc, List.nil_append, List.cons.injEq,
        true_and] at hbody
      obtain ⟨rfl, rfl⟩ := readable_items items _ r r' hbody
      exact ⟨rfl, rfl⟩

/-- The statements of a block are told from its tokens. -/
theorem readable_items : (ps qs : List Phrase) → (r r' : List Token) →
    itemTokens ps ++ .mark '\x7d' :: r = itemTokens qs ++ .mark '\x7d' :: r' →
    ps = qs ∧ r = r'
  | [], [], r, r', heq => by
    cases heq
    exact ⟨rfl, rfl⟩
  | [], q :: qs, r, r', heq => by
    rw [itemTokens, itemTokens, List.append_assoc] at heq
    exact absurd heq.symm (phrase_ne_mark (by decide) _ _ _)
  | p :: ps, [], r, r', heq => by
    rw [itemTokens, itemTokens, List.append_assoc] at heq
    exact absurd heq (phrase_ne_mark (by decide) _ _ _)
  | p :: ps, q :: qs, r, r', heq => by
    rw [itemTokens, itemTokens, List.append_assoc, List.append_assoc] at heq
    obtain ⟨rfl, hrest⟩ := readable_phrase p q _ _ heq
    obtain ⟨rfl, rfl⟩ := readable_items ps qs r r' hrest
    exact ⟨rfl, rfl⟩

end

/-- **A text is at most one statement.** -/
theorem parses_unique {text : String} {p q : Phrase} (hp : Parses text p) (hq : Parses text q) :
    p = q := by
  have htokens : p.tokens ++ [] = q.tokens ++ [] := by
    rw [List.append_nil, List.append_nil]
    exact Option.some.inj (hp.1.symm.trans hq.1)
  exact (readable_phrase p q [] [] htokens).1

end SolidTree.Grammar
