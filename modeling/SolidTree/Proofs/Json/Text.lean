/-
  SolidTree.Proofs.Json.Text
  ──────────────────────────
  **JSON VALUES READ BACK FROM THEIR TEXT.**

  A value is its tokens, and both layouts are texts of those tokens: they
  differ in blanks only.  A value is read back from its tokens, and so from
  either text, if its numbers are spelled as numbers and its texts are whole:

      spells_compact, spells_pretty  — the layouts spell the tokens
      value?_tokens                  — the tokens make the value
      parse?_compactText, parse?_prettyText
-/
import SolidTree.Proofs.Json.Tokens

namespace SolidTree.Json

/-! ## §1. Values as tokens. -/

/-- Tokens with a comma between them. -/
def commaSeparated : List (List Token) → List Token
  | [] => []
  | [ts] => ts
  | ts :: rest => ts ++ .comma :: commaSeparated rest

mutual

/-- The tokens of a value. -/
def tokens : Json → List Token
  | .null => [.null]
  | .boolean b => [.boolean b]
  | .number written => [.number written]
  | .text s => [.text s]
  | .array items => .openArray :: (commaSeparated (itemTokens items) ++ [.closeArray])
  | .object fields => .openObject :: (commaSeparated (fieldTokens fields) ++ [.closeObject])

/-- The tokens of each value of a list. -/
def itemTokens : List Json → List (List Token)
  | [] => []
  | j :: rest => tokens j :: itemTokens rest

/-- The tokens of each field of a list. -/
def fieldTokens : List (Option String × Json) → List (List Token)
  | [] => []
  | (name, j) :: rest => (.text name :: .colon :: tokens j) :: fieldTokens rest

end

/-- Numbers are spelled as numbers, and no text has half of a surrogate pair. -/
inductive IsProper : Json → Prop where
  | null : IsProper .null
  | boolean (b : Bool) : IsProper (.boolean b)
  | number {s : Spelling} (h : s.IsProper) : IsProper (.number (String.ofList s.chars))
  | text (s : String) : IsProper (.text (some s))
  | array {items : List Json} (h : ∀ j ∈ items, IsProper j) : IsProper (.array items)
  | object {fields : List (Option String × Json)} (hnames : ∀ f ∈ fields, f.1.isSome = true)
    (h : ∀ f ∈ fields, IsProper f.2) : IsProper (.object fields)

theorem itemTokens_eq_map (js : List Json) : itemTokens js = js.map tokens := by
  induction js with
  | nil => rfl
  | cons j rest ih => rw [itemTokens, ih, List.map_cons]

theorem fieldTokens_eq_map (fields : List (Option String × Json)) :
    fieldTokens fields = fields.map fun f => .text f.1 :: .colon :: tokens f.2 := by
  induction fields with
  | nil => rfl
  | cons f rest ih => rw [fieldTokens, ih, List.map_cons]

theorem compactFields_eq_map (fields : List (Option String × Json)) :
    compactFields fields = fields.map fun f => quote f.1 ++ ':' :: compact f.2 := by
  induction fields with
  | nil => rfl
  | cons f rest ih => rw [compactFields, ih, List.map_cons]

theorem prettyItems_eq_map (depth : ℕ) (js : List Json) :
    prettyItems depth js = js.map (pretty depth) := by
  induction js with
  | nil => rfl
  | cons j rest ih => rw [prettyItems, ih, List.map_cons]

theorem prettyFields_eq_map (depth : ℕ) (fields : List (Option String × Json)) :
    prettyFields depth fields = fields.map fun f => quote f.1 ++ ':' :: ' ' :: pretty depth f.2 := by
  induction fields with
  | nil => rfl
  | cons f rest ih => rw [prettyFields, ih, List.map_cons]

/-! ## §2. Layouts. -/

theorem ends_blanks {blanks : List Char} (hblanks : ∀ c ∈ blanks, isBlank c = true)
    {cs : List Char} (h : Ends cs) : Ends (blanks ++ cs) := by
  cases blanks with
  | nil => exact h
  | cons c rest =>
    have hc := hblanks c (List.mem_cons_self ..)
    refine ends_cons ?_ _
    simp only [isBlank, Bool.or_eq_true, decide_eq_true_eq] at hc
    rcases hc with ((rfl | rfl) | rfl) | rfl <;> decide

/-- Items with a comma and blanks between them. -/
theorem spells_separated {blanks : List Char} (hblanks : ∀ c ∈ blanks, isBlank c = true)
    {texts : List (List Char)} {spellings : List (List Token)}
    (h : List.Forall₂ Spells texts spellings) :
    Spells (separated (',' :: blanks) texts) (commaSeparated spellings) := by
  induction h with
  | nil => exact fun rest us _ hscans => hscans
  | @cons text ts texts spellings hfirst hrest ih =>
    cases hrest with
    | nil => exact hfirst
    | cons hsecond hothers =>
      intro rest us hends hscans
      have hbehind := (ih rest us hends hscans).blanks hblanks
      have hcomma := hbehind.token (c := ',') rfl rfl le_rfl
      have hall := hfirst _ _ (ends_cons (by decide) _) hcomma
      simpa [separated, commaSeparated] using hall

/-- Two characters that are tokens of their own, and no number goes on with the second. -/
structure Brackets (opening closing : Char) (o c : Token) : Prop where
  opens : ∀ cs, token? (opening :: cs) = some (o, cs)
  closes : ∀ cs, token? (closing :: cs) = some (c, cs)
  visible : isBlank opening = false ∧ isBlank closing = false
  ends : ∀ cs, Ends (closing :: cs)

theorem brackets_array : Brackets '[' ']' .openArray .closeArray :=
  ⟨fun _ => rfl, fun _ => rfl, ⟨rfl, rfl⟩, ends_cons (by decide)⟩

theorem brackets_object : Brackets '\x7b' '\x7d' .openObject .closeObject :=
  ⟨fun _ => rfl, fun _ => rfl, ⟨rfl, rfl⟩, ends_cons (by decide)⟩

section

variable {opening closing : Char} {o c : Token} {texts : List (List Char)}
  {spellings : List (List Token)}

/-- Items between two brackets, with blanks beside them. -/
theorem spells_bracketed (hb : Brackets opening closing o c) {front behind cs : List Char}
    (hfront : ∀ c ∈ front, isBlank c = true) (hbehind : ∀ c ∈ behind, isBlank c = true)
    {ts : List Token} (h : Spells cs ts) :
    Spells (opening :: (front ++ cs ++ behind ++ [closing])) (o :: (ts ++ [c])) := by
  intro rest us _ hscans
  have hlast := (hscans.token hb.visible.2 (hb.closes rest) le_rfl).blanks hbehind
  have hitems := (h _ _ (ends_blanks hbehind (hb.ends rest)) hlast).blanks hfront
  simpa using hitems.token hb.visible.1 (hb.opens _) le_rfl

theorem isBlank_nil : ∀ c ∈ ([] : List Char), isBlank c = true := List.forall_mem_nil _

/-- The compact layout has no blanks. -/
theorem spells_compactItems (hb : Brackets opening closing o c)
    (h : List.Forall₂ Spells texts spellings) :
    Spells (opening :: (separated [','] texts ++ [closing]))
      (o :: (commaSeparated spellings ++ [c])) := by
  have hitems := spells_bracketed hb isBlank_nil isBlank_nil (spells_separated isBlank_nil h)
  simpa using hitems

theorem isBlank_newLine (depth : ℕ) : ∀ c ∈ newLine depth, isBlank c = true := by
  intro c hc
  rcases List.mem_cons.mp hc with rfl | hc
  · rfl
  · rw [List.eq_of_mem_replicate hc]
    rfl

/-- The pretty layout has blanks only between tokens. -/
theorem spells_lines (hb : Brackets opening closing o c) (depth : ℕ)
    (h : List.Forall₂ Spells texts spellings) :
    Spells (bracketed opening closing depth texts) (o :: (commaSeparated spellings ++ [c])) := by
  cases h with
  | nil => exact spells_compactItems hb .nil
  | cons hfirst hrest =>
    exact spells_bracketed hb (isBlank_newLine _) (isBlank_newLine _)
      (spells_separated (isBlank_newLine _) (.cons hfirst hrest))

end

/-- A field is its name and its value, with blanks between them. -/
theorem spells_field {blanks cs : List Char} (hblanks : ∀ c ∈ blanks, isBlank c = true)
    {name : Option String} (hname : name.isSome = true) {ts : List Token} (h : Spells cs ts) :
    Spells (quote name ++ ':' :: (blanks ++ cs)) (.text name :: .colon :: ts) := by
  obtain ⟨name, rfl⟩ := Option.isSome_iff_exists.mp hname
  intro rest us hends hscans
  have hvalue := (h rest us hends hscans).blanks hblanks
  have hcolon := hvalue.token (c := ':') rfl rfl le_rfl
  have hall := spells_quote (some name) _ _ (ends_cons (by decide) _) hcolon
  simpa using hall

theorem forall₂_map {β γ δ : Type} {r : γ → δ → Prop} {f : β → γ} {g : β → δ} {xs : List β}
    (h : ∀ x ∈ xs, r (f x) (g x)) : List.Forall₂ r (xs.map f) (xs.map g) := by
  rw [List.forall₂_map_left_iff, List.forall₂_map_right_iff]
  exact List.forall₂_same.mpr h

theorem spells_compact {j : Json} (h : j.IsProper) : Spells j.compact j.tokens := by
  induction h with
  | null => exact spells_null
  | boolean b => exact spells_boolean b
  | number h =>
    rw [compact, String.toList_ofList]
    exact spells_number h
  | text s => exact spells_quote (some s)
  | @array items _ ih =>
    rw [compact, tokens, compactItems_eq_map, itemTokens_eq_map]
    exact spells_compactItems brackets_array (forall₂_map ih)
  | @object fields hnames _ ih =>
    rw [compact, tokens, compactFields_eq_map, fieldTokens_eq_map]
    exact spells_compactItems brackets_object
      (forall₂_map fun f hf => spells_field isBlank_nil (hnames f hf) (ih f hf))

theorem spells_pretty {j : Json} (h : j.IsProper) (depth : ℕ) :
    Spells (j.pretty depth) j.tokens := by
  induction h generalizing depth with
  | null => exact spells_null
  | boolean b => exact spells_boolean b
  | number h =>
    rw [pretty, String.toList_ofList]
    exact spells_number h
  | text s => exact spells_quote (some s)
  | @array items _ ih =>
    rw [pretty, tokens, prettyItems_eq_map, itemTokens_eq_map]
    exact spells_lines brackets_array depth (forall₂_map fun j hj => ih j hj (depth + 1))
  | @object fields hnames _ ih =>
    rw [pretty, tokens, prettyFields_eq_map, fieldTokens_eq_map]
    have hblank : ∀ c ∈ [' '], isBlank c = true := by simp [isBlank]
    exact spells_lines brackets_object depth
      (forall₂_map fun f hf => spells_field hblank (hnames f hf) (ih f hf (depth + 1)))

/-! ## §3. Values. -/

/-- No value starts with the end of an array. -/
theorem tokens_start (j : Json) : ∃ t ts, j.tokens = t :: ts ∧ t ≠ .closeArray := by
  cases j <;> exact ⟨_, _, rfl, by simp⟩

theorem commaSeparated_cons (ts us : List Token) (rest : List (List Token)) :
    commaSeparated (ts :: us :: rest) = ts ++ .comma :: commaSeparated (us :: rest) := rfl

theorem commaSeparated_start (j : Json) (js : List Json) :
    ∃ t ts, commaSeparated ((j :: js).map tokens) = t :: ts ∧ t ≠ .closeArray := by
  obtain ⟨t, ts, ht, hne⟩ := tokens_start j
  cases js with
  | nil => exact ⟨t, ts, ht, hne⟩
  | cons i js =>
    rw [List.map_cons, List.map_cons, commaSeparated_cons, ht]
    exact ⟨t, _, rfl, hne⟩

/-- The value is read from its tokens if as many values as there are tokens may be read. -/
def ReadsBack (j : Json) : Prop :=
  ∀ n rest, j.tokens.length ≤ n → value? n (j.tokens ++ rest) = some (j, rest)

theorem items?_tokens {j : Json} {js : List Json} (h : ∀ i ∈ j :: js, ReadsBack i) (n : ℕ)
    (rest : List Token) (hn : (commaSeparated ((j :: js).map tokens)).length ≤ n) :
    items? (n + 1) (commaSeparated ((j :: js).map tokens) ++ .closeArray :: rest)
      = some (j :: js, rest) := by
  induction js generalizing j n with
  | nil =>
    have hread := h j (List.mem_cons_self ..) n (.closeArray :: rest) hn
    rw [List.map_singleton, commaSeparated, items?, hread]
    rfl
  | cons i js ih =>
    rw [List.map_cons, List.map_cons, commaSeparated_cons, List.length_append, List.length_cons]
      at hn
    obtain ⟨n, rfl⟩ := Nat.exists_eq_add_one_of_ne_zero (show n ≠ 0 by omega)
    have hread := h j (List.mem_cons_self ..) (n + 1)
      (.comma :: (commaSeparated ((i :: js).map tokens) ++ .closeArray :: rest)) (by omega)
    have hothers := ih (List.forall_mem_cons.mp h).2 n (by rw [List.map_cons]; omega)
    rw [List.map_cons, List.map_cons, commaSeparated_cons, List.append_assoc, List.cons_append,
      ← List.map_cons, items?, hread]
    show (items? (n + 1) _).bind _ = _
    rw [hothers]
    rfl

theorem fields?_tokens {f : Option String × Json} {fs : List (Option String × Json)}
    (h : ∀ g ∈ f :: fs, ReadsBack g.2) (n : ℕ) (rest : List Token)
    (hn : (commaSeparated (fieldTokens (f :: fs))).length ≤ n) :
    fields? (n + 1) (commaSeparated (fieldTokens (f :: fs)) ++ .closeObject :: rest)
      = some (f :: fs, rest) := by
  induction fs generalizing f n with
  | nil =>
    have hread := h f (List.mem_cons_self ..) n (.closeObject :: rest) (by
      simp only [fieldTokens, commaSeparated, List.length_cons] at hn
      omega)
    simp only [fieldTokens, commaSeparated, List.cons_append]
    rw [fields?, hread]
    rfl
  | cons g fs ih =>
    have hsplit : commaSeparated (fieldTokens (f :: g :: fs))
        = .text f.1 :: .colon :: (f.2.tokens ++ .comma :: commaSeparated (fieldTokens (g :: fs))) :=
      rfl
    rw [hsplit, List.length_cons, List.length_cons, List.length_append, List.length_cons] at hn
    obtain ⟨n, rfl⟩ := Nat.exists_eq_add_one_of_ne_zero (show n ≠ 0 by omega)
    have hread := h f (List.mem_cons_self ..) (n + 1)
      (.comma :: (commaSeparated (fieldTokens (g :: fs)) ++ .closeObject :: rest)) (by omega)
    have hothers := ih (List.forall_mem_cons.mp h).2 n (by omega)
    rw [hsplit, List.cons_append, List.cons_append, List.append_assoc, List.cons_append, fields?,
      hread]
    show (fields? (n + 1) _).bind _ = _
    rw [hothers]
    rfl

/-- **The value is read from its tokens.** -/
theorem value?_tokens {j : Json} (h : j.IsProper) : ReadsBack j := by
  induction h with
  | null => exact fun n rest _ => by cases n <;> rfl
  | boolean b => exact fun n rest _ => by cases n <;> rfl
  | number h => exact fun n rest _ => by cases n <;> rfl
  | text s => exact fun n rest _ => by cases n <;> rfl
  | @array items _ ih =>
    intro n rest hn
    cases items with
    | nil => cases n <;> rfl
    | cons j js =>
      rw [tokens, itemTokens_eq_map, List.length_cons, List.length_append,
        List.length_singleton] at hn
      obtain ⟨n, rfl⟩ := Nat.exists_eq_add_one_of_ne_zero (show n ≠ 0 by omega)
      obtain ⟨m, rfl⟩ := Nat.exists_eq_add_one_of_ne_zero (show n ≠ 0 by omega)
      have hitems := items?_tokens ih m rest (by omega)
      rw [tokens, itemTokens_eq_map, List.cons_append, List.append_assoc, List.singleton_append,
        value?]
      · show (items? (m + 1) _).bind _ = _
        rw [hitems]
        rfl
      · intro others hothers
        obtain ⟨t, ts, ht, hne⟩ := commaSeparated_start j js
        rw [ht, List.cons_append] at hothers
        exact hne (List.cons.inj hothers).1
  | @object fields _ _ ih =>
    intro n rest hn
    cases fields with
    | nil => cases n <;> rfl
    | cons f fs =>
      rw [tokens, List.length_cons, List.length_append, List.length_singleton] at hn
      obtain ⟨n, rfl⟩ := Nat.exists_eq_add_one_of_ne_zero (show n ≠ 0 by omega)
      obtain ⟨m, rfl⟩ := Nat.exists_eq_add_one_of_ne_zero (show n ≠ 0 by omega)
      have hfields := fields?_tokens ih m rest (by omega)
      rw [tokens, List.cons_append, List.append_assoc, List.singleton_append, value?]
      · show (fields? (m + 1) _).bind _ = _
        rw [hfields]
        rfl
      · -- A field starts with its name.
        intro others hothers
        cases fs <;> cases (List.cons.inj hothers).1

/-- A text of the tokens of a value is read as the value. -/
theorem parse?_of_spells {j : Json} (h : j.IsProper) {cs : List Char} (hcs : Spells cs j.tokens) :
    parse? (String.ofList cs) = some j := by
  have hscan := hcs [] [] ends_nil scans_nil cs.length (by rw [List.append_nil])
  have hread := value?_tokens h j.tokens.length [] le_rfl
  rw [List.append_nil, List.append_nil] at hscan
  rw [List.append_nil] at hread
  unfold parse?
  rw [String.toList_ofList]
  show (scan cs.length cs).bind _ = _
  rw [hscan]
  show (value? j.tokens.length j.tokens).bind _ = _
  rw [hread]
  rfl

/-- **The compact text of a value is read back.** -/
theorem parse?_compactText {j : Json} (h : j.IsProper) : parse? j.compactText = some j :=
  parse?_of_spells h (spells_compact h)

/-- **The pretty text of a value is read back.** -/
theorem parse?_prettyText {j : Json} (h : j.IsProper) : parse? j.prettyText = some j :=
  parse?_of_spells h (spells_pretty h 0)

end SolidTree.Json
