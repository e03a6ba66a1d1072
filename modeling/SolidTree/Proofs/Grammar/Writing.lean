/-
  SolidTree.Proofs.Grammar.Writing
  ────────────────────────────────
  **WRITTEN STATEMENTS ARE READ BACK.**

  Every piece of a statement is written with characters that are read as the
  tokens of that piece, whatever the texts and the comments in it are: texts
  are escaped, comments are cut into lines with slashes of their own, and
  indentation adds nothing but blanks.

      Writes cs ts          — in front of anything but a letter, the
                              characters are read as the tokens
      s.phrase precision    — the syntax tree that a statement is written for

  Main result:
    * `parses_text` — the text of a statement is that statement and no other
-/
import Mathlib.Data.List.Forall2
import SolidTree.Proofs.Grammar.Phrase
import SolidTree.Source.Statement

namespace SolidTree

open Grammar

/-! ## §1. Syntax trees of statements. -/

mutual

/-- The value that is written for an argument. -/
def Value.datum (precision : UInt32) : Value Float → Datum
  | .number x => .word (Source.rounded precision x)
  | .integer n => .word (Source.integer n.toInt)
  | .boolean b => .word (if b then "true" else "false").toList
  | .text s => .text s.toList
  | .list items => .list (dataOf precision items)

/-- The values that are written for a list. -/
def dataOf (precision : UInt32) : List (Value Float) → List Datum
  | [] => []
  | v :: rest => v.datum precision :: dataOf precision rest

end

/-- The arguments that are written for an argument list. -/
def Arguments.data (precision : UInt32) (a : Arguments Float) :
    List (Option (List Char) × Datum) :=
  a.entries.map fun (key, v) => (key.map String.toList, v.datum precision)

/-- What is written before the body of a statement. -/
def Head.heading (precision : UInt32) (h : Head Float) : Heading where
  comments := h.comments.flatMap fun comment => behindSlashes comment.toList
  modifier := h.modifier
  name := h.name.toList
  arguments := h.arguments.data precision

mutual

/-- The syntax tree that a statement is written for. -/
def Statement.phrase (precision : UInt32) : Statement Float → Phrase
  | .call head => .call (head.heading precision)
  | .over head operand => .onto (head.heading precision) (operand.phrase precision)
  | .block head _ items => .block (head.heading precision) (phrasesOf precision items)

/-- The syntax trees of the statements of a block. -/
def phrasesOf (precision : UInt32) : List (Statement Float) → List Phrase
  | [] => []
  | s :: rest => s.phrase precision :: phrasesOf precision rest

end

theorem phrasesOf_eq_map (precision : UInt32) (ss : List (Statement Float)) :
    phrasesOf precision ss = ss.map (·.phrase precision) := by
  induction ss with
  | nil => rfl
  | cons s rest ih => rw [phrasesOf, ih, List.map_cons]

namespace Grammar

/-! ## §2. Numbers and truth values are words. -/

theorem isLetter_of_isDigit {c : Char} (h : c.isDigit = true) : isLetter c = true := by
  unfold isLetter Char.isAlphanum
  rw [h]
  simp

theorem isLetter_of_mem_toDigits {n : Nat} {c : Char} (h : c ∈ Nat.toDigits 10 n) :
    isLetter c = true :=
  isLetter_of_isDigit (Nat.isDigit_of_mem_toDigits (by decide) (by decide) h)

theorem IsWord.minus {cs : List Char} (h : IsWord cs) : IsWord ('-' :: cs) :=
  ⟨List.cons_ne_nil _ _, List.forall_mem_cons.mpr ⟨by decide, h.2⟩⟩

theorem isWord_integer (n : Int) : IsWord (Source.integer n) := by
  have hdigits : IsWord (Nat.toDigits 10 n.natAbs) :=
    ⟨Nat.toDigits_ne_nil, fun c hc => isLetter_of_mem_toDigits hc⟩
  unfold Source.integer
  split
  · exact hdigits.minus
  · exact hdigits

/-- Wherever the point is put, there is nothing but digits, zeros and the point. -/
theorem isWord_placePoint {digits : List Char} (h : IsWord digits) (point : Int) :
    IsWord (NumberStyle.placePoint digits point "") := by
  obtain ⟨hne, hletters⟩ := h
  unfold NumberStyle.placePoint
  split
  · refine ⟨List.cons_ne_nil _ _, List.forall_mem_cons.mpr ⟨by decide, ?_⟩⟩
    refine List.forall_mem_cons.mpr ⟨by decide, List.forall_mem_append.mpr ⟨?_, hletters⟩⟩
    exact fun c hc => (List.eq_of_mem_replicate hc) ▸ by decide
  split
  · refine ⟨by simp [hne], ?_⟩
    refine List.forall_mem_append.mpr ⟨List.forall_mem_append.mpr ⟨hletters, ?_⟩, nofun⟩
    exact fun c hc => (List.eq_of_mem_replicate hc) ▸ by decide
  · refine ⟨by simp, List.forall_mem_append.mpr ⟨fun c hc => hletters c (List.mem_of_mem_take hc), ?_⟩⟩
    exact List.forall_mem_cons.mpr ⟨by decide, fun c hc => hletters c (List.mem_of_mem_drop hc)⟩

theorem isWord_decimal (d : Decimal) : IsWord (NumberStyle.plain.decimal d) :=
  isWord_placePoint ⟨Nat.toDigits_ne_nil, fun _ hc => isLetter_of_mem_toDigits hc⟩ _

/-- A number in plain style is one word, also if it has no digits. -/
theorem isWord_plain (x : Float) : IsWord (NumberStyle.plain.chars x) := by
  unfold NumberStyle.chars
  split
  next => exact (by decide : IsWord "NaN".toList)
  next sign _ => cases sign <;> (dsimp only [NumberStyle.plain]; decide)
  next =>
    have hzero : IsWord (NumberStyle.placePoint ['0'] 1 NumberStyle.plain.whole) :=
      isWord_placePoint (by decide) 1
    dsimp only
    split
    · exact hzero.minus
    · exact hzero
  next =>
    dsimp only
    split
    · exact (isWord_decimal _).minus
    · exact isWord_decimal _

theorem isWord_boolean (b : Bool) : IsWord (if b then "true" else "false").toList := by
  cases b <;> decide

/-! ## §3. What is written is read. -/

/-- In front of anything but a letter, the characters are read as the tokens. -/
def Writes (cs : List Char) (ts : List Token) : Prop :=
  ∀ rest us, Stops rest → Lexes rest us → Lexes (cs ++ rest) (ts ++ us)

theorem writes_word {cs : List Char} (h : IsWord cs) : Writes cs [.word cs] :=
  fun _ _ hstops hrest => lexes_word h hstops hrest

/-- Elements are read one by one, and so are the commas between them. -/
theorem writes_separated {texts : List (List Char)} {spellings : List (List Token)}
    (h : List.Forall₂ Writes texts spellings) :
    Writes (Source.separated texts) (commaSeparated spellings) := by
  intro rest us hstops hrest
  induction h with
  | nil => exact hrest
  | @cons text spelling texts spellings hfirst hothers ih =>
    cases hothers with
    | nil =>
      rw [commaSeparated, List.flatMap_nil, List.append_nil]
      exact hfirst rest us hstops hrest
    | @cons text' spelling' texts' spellings' hsecond hothers =>
      -- The next element stands behind a comma and a blank.
      have hcomma := lexes_mark (c := ',') rfl (reads_space (c := ' ') rfl ih)
      have hall := hfirst _ _ ⟨',', _, rfl, rfl⟩ hcomma
      rw [Source.separated, commaSeparated, List.flatMap_cons]
      · simpa only [commaSeparated, List.append_assoc, List.cons_append, List.nil_append]
          using hall
      · simp

mutual

/-- A value is read as its syntax tree. -/
theorem writes_value (precision : UInt32) : (v : Value Float) →
    Writes (Source.value precision v) (v.datum precision).tokens
  | .number x => writes_word (isWord_plain _)
  | .integer n => writes_word (isWord_integer _)
  | .boolean b => writes_word (isWord_boolean b)
  | .text s => fun _ _ _ hrest => lexes_quote _ hrest
  | .list items => fun rest us _ hrest => by
    have hclose := lexes_mark (c := ']') rfl hrest
    have hitems :=
      writes_separated (writes_values precision items) _ _ ⟨']', rest, rfl, rfl⟩ hclose
    have hopen := lexes_mark (c := '[') rfl hitems
    simpa only [Source.value, Value.datum, Datum.tokens, List.cons_append, List.append_assoc,
      List.nil_append] using hopen

/-- The values of a list are read as theirs. -/
theorem writes_values (precision : UInt32) : (vs : List (Value Float)) →
    List.Forall₂ Writes (Source.values precision vs) (spellings (dataOf precision vs))
  | [] => .nil
  | v :: rest => .cons (writes_value precision v) (writes_values precision rest)

end

/-- An argument is read with its key, if that is a name. -/
theorem writes_argument {precision : UInt32} {key : Option String} {v : Value Float}
    (hkey : ∀ k ∈ key, IsName k.toList) :
    Writes (Source.argument precision (key, v))
      (argumentTokens (key.map String.toList, v.datum precision)) := by
  cases key with
  | none => exact writes_value precision v
  | some key =>
    intro rest us hstops hrest
    have hvalue := lexes_mark (c := '=') rfl (writes_value precision v rest us hstops hrest)
    have hall := lexes_word (hkey key rfl).1 ⟨'=', _, rfl, rfl⟩ hvalue
    simpa only [Source.argument, argumentTokens, Option.map_some, List.cons_append,
      List.append_assoc] using hall

/-- Arguments are read one by one, if every key is a name. -/
theorem writes_arguments {precision : UInt32} {a : Arguments Float}
    (hkeys : ∀ entry ∈ a.entries, ∀ key ∈ entry.1, IsName key.toList) :
    Writes (Source.arguments precision a)
      (commaSeparated ((a.data precision).map argumentTokens)) := by
  refine writes_separated ?_
  unfold Arguments.data
  rw [List.map_map, List.forall₂_map_left_iff, List.forall₂_map_right_iff]
  exact List.forall₂_same.mpr fun (_, _) hentry => writes_argument fun k hk => hkeys _ hentry k hk

theorem lexes_comments (comments : List String) {cs : List Char} {ts : List Token}
    (hrest : Lexes cs ts) :
    Lexes (comments.flatMap (fun comment => Source.commentLines comment.toList) ++ cs)
      ((comments.flatMap fun comment => behindSlashes comment.toList).map .comment ++ ts) := by
  induction comments with
  | nil => exact hrest
  | cons comment comments ih =>
    simpa only [List.flatMap_cons, List.map_append, List.append_assoc]
      using lexes_commentLines comment.toList ih

theorem lexes_sign (m : Modifier) {cs : List Char} {ts : List Token} (hrest : Lexes cs ts) :
    Lexes (m.sign ++ cs) (m.sign.map .mark ++ ts) := by
  cases m with
  | none => exact hrest
  | _ => exact lexes_mark rfl hrest

/-- What stands before a body is read as that, whatever the body is. -/
theorem lexes_head {format : Format} {h : Head Float}
    (hgrammatical : (h.heading format.precision).IsGrammatical) {cs : List Char} {ts : List Token}
    (hrest : Lexes cs ts) :
    Lexes (h.chars format ++ cs) ((h.heading format.precision).tokens ++ ts) := by
  have harguments : Writes (Source.arguments format.precision h.arguments)
      (commaSeparated ((h.heading format.precision).arguments.map argumentTokens)) :=
    writes_arguments fun _ hentry key hkey =>
      hgrammatical.keys _ (List.mem_map_of_mem hentry) _ (Option.mem_map_of_mem _ hkey)
  -- From the closing bracket back to the first comment.
  have hclose := harguments _ _ ⟨')', cs, rfl, rfl⟩ (lexes_mark (c := ')') rfl hrest)
  have hname := lexes_word hgrammatical.name.1 ⟨'(', _, rfl, rfl⟩ (lexes_mark (c := '(') rfl hclose)
  have hall := lexes_comments h.comments (lexes_sign h.modifier hname)
  simpa only [Head.chars, Heading.tokens, Heading.callTokens, Head.heading, List.append_assoc,
    List.cons_append, List.nil_append] using hall

theorem lexes_opening (opening : Opening) {cs : List Char} {ts : List Token}
    (hrest : Lexes cs ts) : Lexes (opening.chars ++ cs) (.mark '\x7b' :: ts) := by
  have hopen := lexes_mark (c := '\x7b') rfl hrest
  cases opening with
  | sameLine => exact reads_space (c := ' ') rfl hopen
  | nextLine => exact reads_space (c := '\n') rfl hopen

mutual

/-- A statement is read as its syntax tree. -/
theorem lexes_statement {format : Format} (hindent : format.indent.toList.all isSpace = true) :
    (s : Statement Float) → (s.phrase format.precision).IsGrammatical →
    Lexes (s.chars format) (s.phrase format.precision).tokens
  | .call head, .call h _ => lexes_head h (lexes_mark (c := ';') rfl (reads_nil _))
  | .over head operand, .onto h _ hoperand => by
    have hbody := lexes_statement hindent operand hoperand
    exact lexes_head h (reads_space (c := '\n') rfl hbody)
  | .block head opening items, .block h hitems => by
    have hclose := lexes_mark (c := '\x7d') rfl (reads_nil .between)
    have hlast := reads_space (c := '\n') rfl hclose
    have hbody := (lexes_blockLines hindent items hitems).append hlast
    have hall := lexes_head h (lexes_opening opening hbody)
    simpa only [Statement.chars, Statement.phrase, Phrase.tokens, List.append_assoc,
      List.singleton_append] using hall

/-- The lines of a block are read as its statements. -/
theorem lexes_blockLines {format : Format} (hindent : format.indent.toList.all isSpace = true) :
    (items : List (Statement Float)) →
    (∀ p ∈ phrasesOf format.precision items, p.IsGrammatical) →
    Lexes (blockLines format items) (itemTokens (phrasesOf format.precision items))
  | [], _ => reads_nil _
  | s :: rest, h => by
    obtain ⟨hs, hrest⟩ := List.forall_mem_cons.mp h
    have hline := (lexes_statement hindent s hs).indent hindent
    exact reads_space (c := '\n') rfl (hline.append (lexes_blockLines hindent rest hrest))

end

/-- **The text of a statement is that statement and no other.** The statement has to be
grammatical, and lines are indented by blanks. -/
theorem parses_text {format : Format} (hindent : format.indent.toList.all isSpace = true)
    {s : Statement Float} (h : (s.phrase format.precision).IsGrammatical) (p : Phrase) :
    Parses (s.text format) p ↔ p = s.phrase format.precision := by
  have hself : Parses (s.text format) (s.phrase format.precision) := by
    refine ⟨Lexes.tokens?_eq ?_, h⟩
    rw [Statement.text, String.toList_ofList]
    exact lexes_statement hindent s h
  exact ⟨fun hp => parses_unique hp hself, fun hp => hp ▸ hself⟩

end Grammar

end SolidTree
