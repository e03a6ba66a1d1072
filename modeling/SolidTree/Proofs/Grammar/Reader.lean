/-
  SolidTree.Proofs.Grammar.Reader
  ───────────────────────────────
  **ARGUMENT LISTS ARE READ.**

  The text between the brackets of a call is cut into tokens, and the tokens
  are read from left to right: an argument is a value, or a name, an equals
  sign and a value; a value is a word, a text, or a list of values in
  brackets; and commas stand between arguments and between values.  Of the
  words, two are truth values and the others have to be numbers:

      data?        — the arguments of a text, with words as they stand
      Literal      — a value whose words have been read
      arguments?   — the arguments of a text

  A text is read as a whole or not at all.

  Main result:
    * `data?_of_tokens` — arguments are read from what they are spelled with
-/
import SolidTree.Number.Numeral
import SolidTree.Proofs.Grammar.Phrase

namespace SolidTree.Grammar

/-! ## §1. The reader. -/

mutual

/-- The value at the start, and what follows it. At most `n` values are read one in another or
one after another. -/
def datum? : (n : Nat) → List Token → Option (Datum × List Token)
  | _, .word cs :: rest => some (.word cs, rest)
  | _, .text cs :: rest => some (.text cs, rest)
  | _, .mark '[' :: .mark ']' :: rest => some (.list [], rest)
  | n + 1, .mark '[' :: rest => do
    let (items, rest) ← items? n rest
    return (.list items, rest)
  | _, _ => none

/-- Values with commas between them up to the end of their list, and what follows it. -/
def items? : (n : Nat) → List Token → Option (List Datum × List Token)
  | 0, _ => none
  | n + 1, tokens => do
    match ← datum? n tokens with
    | (d, .mark ',' :: rest) =>
      let (items, rest) ← items? n rest
      return (d :: items, rest)
    | (d, .mark ']' :: rest) => return ([d], rest)
    | _ => none

end

/-- The argument at the start, and what follows it. A key has to be a name. -/
def argument? (n : Nat) (tokens : List Token) :
    Option ((Option (List Char) × Datum) × List Token) :=
  match tokens with
  | .word key :: .mark '=' :: rest =>
    if IsName key then (datum? n rest).map fun (d, rest) => ((some key, d), rest) else none
  | _ => (datum? n tokens).map fun (d, rest) => ((none, d), rest)

/-- Arguments with commas between them, of which there are at most `n`. -/
def argumentList? : (n : Nat) → List Token → Option (List (Option (List Char) × Datum))
  | 0, _ => none
  | n + 1, tokens => do
    match ← argument? n tokens with
    | (a, []) => return [a]
    | (a, .mark ',' :: rest) => return a :: (← argumentList? n rest)
    | _ => none

/-- The arguments that a text is spelled with. -/
def data? (text : String) : Option (List (Option (List Char) × Datum)) := do
  match ← tokens? text with
  | [] => return []
  | tokens => argumentList? (tokens.length + 1) tokens

/-! ## §2. Words. -/

/-- A value whose words have been read. -/
inductive Literal where
  | number (parts : Numeral.Parts)
  | boolean (b : Bool)
  | text (cs : List Char)
  | list (items : List Literal)

/-- A number: digits with an optional point and an optional exponent, behind an optional minus
sign. -/
def number? : List Char → Option Numeral.Parts
  | '-' :: cs => Numeral.unsigned? true cs
  | cs => Numeral.unsigned? false cs

/-- A truth value or a number. -/
def word? (cs : List Char) : Option Literal :=
  if cs = "true".toList then some (.boolean true)
  else if cs = "false".toList then some (.boolean false)
  else (number? cs).map .number

mutual

/-- The value with all of its words read. -/
def Datum.literal? : Datum → Option Literal
  | .word cs => word? cs
  | .text cs => some (.text cs)
  | .list items => (literals? items).map .list

/-- The values of a list with all of their words read. -/
def literals? : List Datum → Option (List Literal)
  | [] => some []
  | d :: rest => do return (← d.literal?) :: (← literals? rest)

end

/-- The arguments of a text. -/
def arguments? (text : String) : Option (List (Option (List Char) × Literal)) := do
  (← data? text).mapM fun (key, d) => d.literal?.map (key, ·)

/-! ## §3. What is spelled is read. -/

theorem commaSeparated_cons (ts us : List Token) (rest : List (List Token)) :
    commaSeparated (ts :: us :: rest) = ts ++ .mark ',' :: commaSeparated (us :: rest) := rfl

/-- No value begins with the end of a list. -/
theorem tokens_start (d : Datum) : ∃ t ts, d.tokens = t :: ts ∧ t ≠ .mark ']' := by
  cases d <;> exact ⟨_, _, rfl, by simp⟩

/-- The value is read from its tokens if as many values as there are tokens may be read. -/
def ReadsBack (d : Datum) : Prop :=
  ∀ n rest, d.tokens.length ≤ n → datum? n (d.tokens ++ rest) = some (d, rest)

theorem items?_tokens {d : Datum} {ds : List Datum} (h : ∀ i ∈ d :: ds, ReadsBack i) (n : Nat)
    (rest : List Token) (hn : (commaSeparated ((d :: ds).map Datum.tokens)).length ≤ n) :
    items? (n + 1) (commaSeparated ((d :: ds).map Datum.tokens) ++ .mark ']' :: rest)
      = some (d :: ds, rest) := by
  induction ds generalizing d n with
  | nil =>
    have htokens : commaSeparated ([d].map Datum.tokens) = d.tokens := List.append_nil _
    rw [htokens] at hn ⊢
    rw [items?, h d List.mem_cons_self n (.mark ']' :: rest) hn]
    rfl
  | cons i ds ih =>
    rw [List.map_cons, List.map_cons, commaSeparated_cons, List.length_append, List.length_cons]
      at hn
    obtain ⟨n, rfl⟩ := Nat.exists_eq_add_one_of_ne_zero (show n ≠ 0 by omega)
    have hread := h d List.mem_cons_self (n + 1)
      (.mark ',' :: (commaSeparated ((i :: ds).map Datum.tokens) ++ .mark ']' :: rest)) (by omega)
    have hothers := ih (List.forall_mem_cons.mp h).2 n (by rw [List.map_cons]; omega)
    rw [List.map_cons, List.map_cons, commaSeparated_cons, List.append_assoc, List.cons_append,
      ← List.map_cons, items?, hread]
    show (items? (n + 1) _).bind _ = _
    rw [hothers]
    rfl

mutual

/-- A value is read from its tokens. -/
theorem datum?_tokens : (d : Datum) → ReadsBack d
  | .word cs => fun n rest _ => by cases n <;> rfl
  | .text cs => fun n rest _ => by cases n <;> rfl
  | .list [] => fun n rest _ => by cases n <;> rfl
  | .list (d :: ds) => fun n rest hn => by
    have hitems := data_readBack (d :: ds)
    rw [Datum.tokens, spellings_eq_map] at hn ⊢
    rw [List.length_cons, List.length_append, List.length_singleton] at hn
    obtain ⟨n, rfl⟩ := Nat.exists_eq_add_one_of_ne_zero (show n ≠ 0 by omega)
    obtain ⟨m, rfl⟩ := Nat.exists_eq_add_one_of_ne_zero (show n ≠ 0 by omega)
    have hread := items?_tokens hitems m rest (by omega)
    rw [List.cons_append, List.append_assoc, List.singleton_append, datum?]
    · show (items? (m + 1) _).bind _ = _
      rw [hread]
      rfl
    · intro others hothers
      obtain ⟨t, ts, ht, hne⟩ := tokens_start d
      rw [List.map_cons, commaSeparated, ht, List.cons_append, List.cons_append] at hothers
      exact hne (List.cons.inj hothers).1

/-- The values of a list are read from their tokens. -/
theorem data_readBack : (ds : List Datum) → ∀ d ∈ ds, ReadsBack d
  | [] => List.forall_mem_nil _
  | d :: rest => List.forall_mem_cons.mpr ⟨datum?_tokens d, data_readBack rest⟩

end

/-- An argument is read from its tokens. -/
theorem argument?_tokens {a : Option (List Char) × Datum} (ha : ∀ key ∈ a.1, IsName key) {n : Nat}
    (rest : List Token) (hrest : ∀ more, rest ≠ .mark '=' :: more)
    (hn : (argumentTokens a).length ≤ n) :
    argument? n (argumentTokens a ++ rest) = some (a, rest) := by
  obtain ⟨key, d⟩ := a
  cases key with
  | none =>
    have hread : datum? n (d.tokens ++ rest) = some (d, rest) := datum?_tokens d n rest hn
    show argument? n (d.tokens ++ rest) = _
    unfold argument?
    split
    next key more heq =>
      -- A word before an equals sign is no value.
      exfalso
      cases d with
      | word cs => exact hrest more (List.cons.inj heq).2
      | _ => cases heq
    next => rw [hread, Option.map_some]
  | some key =>
    have hread : datum? n (d.tokens ++ rest) = some (d, rest) := by
      refine datum?_tokens d n rest ?_
      rw [argumentTokens, List.length_cons, List.length_cons] at hn
      omega
    show argument? n (.word key :: .mark '=' :: (d.tokens ++ rest)) = _
    rw [argument?, if_pos (ha key rfl), hread, Option.map_some]

theorem argumentList?_tokens {a : Option (List Char) × Datum}
    {as : List (Option (List Char) × Datum)} (h : ∀ b ∈ a :: as, ∀ key ∈ b.1, IsName key) (n : Nat)
    (hn : (commaSeparated ((a :: as).map argumentTokens)).length ≤ n) :
    argumentList? (n + 1) (commaSeparated ((a :: as).map argumentTokens)) = some (a :: as) := by
  induction as generalizing a n with
  | nil =>
    have htokens : commaSeparated ([a].map argumentTokens) = argumentTokens a ++ [] := rfl
    rw [htokens, List.append_nil] at hn
    rw [htokens, argumentList?, argument?_tokens (h a List.mem_cons_self) [] nofun (by omega)]
    rfl
  | cons b as ih =>
    rw [List.map_cons, List.map_cons, commaSeparated_cons, List.length_append, List.length_cons]
      at hn
    obtain ⟨n, rfl⟩ := Nat.exists_eq_add_one_of_ne_zero (show n ≠ 0 by omega)
    have hread := argument?_tokens (n := n + 1) (h a List.mem_cons_self)
      (.mark ',' :: commaSeparated ((b :: as).map argumentTokens)) (by simp) (by omega)
    have hothers := ih (List.forall_mem_cons.mp h).2 n (by rw [List.map_cons]; omega)
    rw [List.map_cons, List.map_cons, commaSeparated_cons, ← List.map_cons, argumentList?, hread]
    show (argumentList? (n + 1) _).bind _ = _
    rw [hothers]
    rfl

theorem argumentTokens_start (a : Option (List Char) × Datum) :
    ∃ t ts, argumentTokens a = t :: ts := by
  obtain ⟨_ | key, d⟩ := a
  · obtain ⟨t, ts, ht, -⟩ := tokens_start d
    exact ⟨t, ts, ht⟩
  · exact ⟨_, _, rfl⟩

/-- **Arguments are read from what they are spelled with.** -/
theorem data?_of_tokens {text : String} {as : List (Option (List Char) × Datum)}
    (h : ∀ a ∈ as, ∀ key ∈ a.1, IsName key)
    (htext : tokens? text = some (commaSeparated (as.map argumentTokens))) :
    data? text = some as := by
  unfold data?
  rw [htext]
  cases as with
  | nil => rfl
  | cons a as =>
    obtain ⟨t, ts, ht⟩ : ∃ t ts, commaSeparated ((a :: as).map argumentTokens) = t :: ts := by
      obtain ⟨t, ts, hstart⟩ := argumentTokens_start a
      exact ⟨t, _, by rw [List.map_cons, commaSeparated, hstart, List.cons_append]⟩
    have hread := argumentList?_tokens h _ (Nat.le_refl _)
    rw [ht] at hread ⊢
    exact hread

end SolidTree.Grammar
