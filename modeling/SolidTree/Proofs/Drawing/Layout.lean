/-
  SolidTree.Proofs.Drawing.Layout
  ───────────────────────────────
  **INDENTATION IS LAYOUT AND NOTHING ELSE.**

  A block indents the finished text of its items, so a line is indented once
  for every block around it, from the innermost one out.  How many those are
  is said here without any text:

      s.rows      — the lines of code of a statement, each with the number of
                    blocks around it and the comments right above it
      s.depths    — the same number for each line of text, where a comment
                    takes as many as it has lines

  No line of code has an end of line in it, since quoted texts have theirs
  escaped; and what a token does to a block of lines it does line by line.

      IsIndented token depths plain indented
                  — each line is the plain one behind as many tokens as the
                    depth there

  Main results:
    * `isIndented_chars` — what the token does to the text of a statement
    * `source_indented` — what it does to the source of a tree, and that the
      rows do not depend on contents
-/
import SolidTree.Proofs.Drawing.Frames
import SolidTree.Proofs.Drawing.Reading

namespace SolidTree

/-! ## §1. Lines. -/

namespace Source

/-- The lines of a text. -/
def lines (code : List Char) : List (List Char) := code.splitOn '\n'

/-- The characters are on one line. -/
def IsLine (code : List Char) : Prop := '\n' ∉ code

instance : DecidablePred IsLine := fun _ => inferInstanceAs (Decidable (_ ∉ _))

theorem lines_of_isLine {code : List Char} (h : IsLine code) : lines code = [code] :=
  List.splitOn_eq_singleton h

theorem lines_append (code rest : List Char) :
    lines (code ++ '\n' :: rest) = lines code ++ lines rest :=
  List.splitOn_append_cons_self code rest

theorem IsLine.append {code rest : List Char} (h : IsLine code) (hrest : IsLine rest) :
    IsLine (code ++ rest) :=
  fun hmem => (List.mem_append.mp hmem).elim h hrest

theorem IsLine.cons {c : Char} {rest : List Char} (hc : c ≠ '\n') (hrest : IsLine rest) :
    IsLine (c :: rest) :=
  fun hmem => (List.mem_cons.mp hmem).elim hc.symm hrest

/-- Indented lines behind the beginning of the first one. -/
theorem lines_indent_after {token : List Char} (htoken : IsLine token)
    {code start first : List Char} {others : List (List Char)} (hstart : IsLine start) (hlines : lines code = first :: others) :
    lines (start ++ code.flatMap fun c => if c = '\n' then '\n' :: token else [c])
      = (start ++ first) :: others.map (token ++ ·) := by
  induction code generalizing start first others with
  | nil =>
    cases hlines
    rw [List.flatMap_nil, List.append_nil, lines_of_isLine hstart, List.reverse_nil,
      List.append_nil, List.map_nil]
  | cons c code ih =>
    obtain ⟨next, rest, hnext⟩ := List.exists_cons_of_ne_nil (List.splitOn_ne_nil '\n' code)
    rw [lines, List.splitOn_cons_eq_if_modifyHead, hnext] at hlines
    rw [List.flatMap_cons]
    by_cases hc : c = '\n'
    · -- The line ends here, and the next one begins with a token.
      subst hc
      cases hlines
      rw [if_pos rfl, List.cons_append, lines_append, lines_of_isLine hstart, ih htoken hnext,
        List.append_nil]
      rfl
    · rw [if_neg (by simpa using hc)] at hlines
      cases hlines
      have hmore := ih (hstart.append (.cons hc List.not_mem_nil)) hnext
      rw [List.append_assoc, List.append_assoc] at hmore
      rw [if_neg hc]
      exact hmore

/-- Indenting puts the token before each line. -/
theorem lines_indent {token : List Char} (htoken : IsLine token) (code : List Char) :
    lines (indent token code) = (lines code).map (token ++ ·) := by
  obtain ⟨first, others, hlines⟩ := List.exists_cons_of_ne_nil (List.splitOn_ne_nil '\n' code)
  have hcode : lines code = first :: others := hlines
  rw [indent, lines_indent_after htoken htoken hcode, hcode, List.map_cons]

/-- The lines of a comment are those of its text, each behind slashes. -/
theorem lines_commentLines (comment rest : List Char) :
    lines (commentLines comment ++ rest)
      = (lines comment).map (['/', '/', ' '] ++ ·) ++ lines rest := by
  have hslashes : IsLine ['/', '/', ' '] := by decide
  rw [commentLines, List.append_assoc, List.singleton_append, lines_append, lines_indent hslashes]

/-! ## §2. Code is written on one line. -/

theorem isLine_word {cs : List Char} (h : Grammar.IsWord cs) : IsLine cs :=
  fun hmem => absurd (h.2 _ hmem) (by decide)

theorem isLine_quote (text : List Char) : IsLine (quote text) := by
  have hescape (c : Char) : IsLine (escapeChar c) := by
    unfold escapeChar
    split
    · decide
    · decide
    · decide
    · decide
    next hnewline _ =>
      exact .cons (fun h => hnewline h) List.not_mem_nil
  have htext : IsLine (text.flatMap escapeChar) := by
    intro hmem
    obtain ⟨c, -, hc⟩ := List.mem_flatMap.mp hmem
    exact hescape c hc
  exact .cons (by decide) (htext.append (by decide))

theorem isLine_separated {texts : List (List Char)} (h : ∀ text ∈ texts, IsLine text) :
    IsLine (separated texts) := by
  induction texts with
  | nil => exact List.not_mem_nil
  | cons text texts ih =>
    obtain ⟨htext, htexts⟩ := List.forall_mem_cons.mp h
    cases texts with
    | nil => exact htext
    | cons next rest => exact htext.append (.cons (by decide) (.cons (by decide) (ih htexts)))

mutual

theorem isLine_value (precision : UInt32) : (v : Value Float) → IsLine (value precision v)
  | .number x => isLine_word (Grammar.isWord_plain _)
  | .integer n => isLine_word (Grammar.isWord_integer _)
  | .boolean b => isLine_word (Grammar.isWord_boolean b)
  | .text s => isLine_quote _
  | .list items =>
    .cons (by decide) ((isLine_separated (isLine_values precision items)).append (by decide))

theorem isLine_values (precision : UInt32) :
    (vs : List (Value Float)) → ∀ text ∈ values precision vs, IsLine text
  | [] => List.forall_mem_nil _
  | v :: rest =>
    List.forall_mem_cons.mpr ⟨isLine_value precision v, isLine_values precision rest⟩

end

end Source

open Source Grammar

/-- The call of a head, without its comments. -/
def Head.line (precision : UInt32) (h : Head Float) : List Char :=
  h.modifier.sign ++ h.name.toList ++ '(' :: (Source.arguments precision h.arguments ++ [')'])

/-- A grammatical call is on one line. -/
theorem Head.isLine_line {precision : UInt32} {h : Head Float}
    (hgrammatical : (h.heading precision).IsGrammatical) : IsLine (h.line precision) := by
  have hsign : IsLine h.modifier.sign := by cases h.modifier <;> decide
  have harguments : IsLine (Source.arguments precision h.arguments) := by
    refine isLine_separated (List.forall_mem_map.mpr fun (key, v) hentry => ?_)
    cases key with
    | none => exact isLine_value precision v
    | some key =>
      have hkey := hgrammatical.keys _ (List.mem_map_of_mem hentry) key.toList rfl
      exact (isLine_word hkey.1).append (.cons (by decide) (isLine_value precision v))
  exact (hsign.append (isLine_word hgrammatical.name.1)).append
    (.cons (by decide) (harguments.append (by decide)))

/-! ## §3. Rows. -/

/-- A line of code with the comments right above it. -/
structure Row where
  /-- How many blocks it is in. -/
  depth : ℕ
  comments : List String

namespace Row

/-- Number of lines of text. -/
def height (r : Row) : ℕ := (r.comments.flatMap fun comment => lines comment.toList).length + 1

/-- The depth of each line of text. -/
def depths (r : Row) : List ℕ := List.replicate r.height r.depth

/-- The row in one more block. -/
def deeper (r : Row) : Row := { r with depth := r.depth + 1 }

end Row

/-- The depth of each line of text of some rows. -/
def depthsOf (rows : List Row) : List ℕ := rows.flatMap Row.depths

theorem depthsOf_append (rows more : List Row) :
    depthsOf (rows ++ more) = depthsOf rows ++ depthsOf more :=
  List.flatMap_append

theorem depthsOf_deeper (rows : List Row) :
    depthsOf (rows.map Row.deeper) = (depthsOf rows).map (· + 1) := by
  unfold depthsOf
  rw [List.flatMap_map, List.map_flatMap]
  refine List.flatMap_congr fun r _ => ?_
  rw [Row.depths, Row.depths, List.map_replicate]
  rfl

/-- The rows that an opening takes besides that of its call. -/
def Opening.rows : Opening → List Row
  | .sameLine => []
  | .nextLine => [⟨0, []⟩]

section

variable {α : Type}

mutual

/-- The rows of a statement: those of the items of a block are in it, its ends are not. -/
def Statement.rows : Statement α → List Row
  | .call head => [⟨0, head.comments⟩]
  | .over head operand => ⟨0, head.comments⟩ :: operand.rows
  | .block head opening items =>
    ⟨0, head.comments⟩ :: (opening.rows ++ (rowsOfItems items).map Row.deeper ++ [⟨0, []⟩])

/-- The rows of some statements. -/
def rowsOfItems : List (Statement α) → List Row
  | [] => []
  | s :: rest => s.rows ++ rowsOfItems rest

end

/-- The depth of each line of text of a statement. -/
def Statement.depths (s : Statement α) : List ℕ := depthsOf s.rows

mutual

/-- The frame has rows of the same depths. -/
theorem Statement.rows_frame :
    (s : Statement α) → s.frame.rows.map (·.depth) = s.rows.map (·.depth)
  | .call _ => rfl
  | .over _ operand => congrArg (0 :: ·) operand.rows_frame
  | .block _ opening items => by
    have hdeeper (rows : List Row) : (rows.map Row.deeper).map (·.depth)
        = (rows.map (·.depth)).map (· + 1) := by
      rw [List.map_map, List.map_map]
      rfl
    simp only [Statement.frame, Statement.rows, List.map_cons, List.map_append,
      hdeeper, rowsOfItems_framesOf items]

theorem rowsOfItems_framesOf : (ss : List (Statement α)) →
    (rowsOfItems (framesOf ss)).map (·.depth) = (rowsOfItems ss).map (·.depth)
  | [] => rfl
  | s :: rest => by
    rw [framesOf, rowsOfItems, rowsOfItems, List.map_append, List.map_append, s.rows_frame,
      rowsOfItems_framesOf rest]

end

end

/-! ## §4. Indented lines. -/

/-- Each line is the plain one behind as many tokens as the depth there. -/
structure IsIndented (token : List Char) (depths : List ℕ) (plain indented : List (List Char)) :
    Prop where
  length_eq : plain.length = depths.length
  lines_eq : indented
    = List.zipWith (fun depth line => (List.replicate depth token).flatten ++ line) depths plain

namespace IsIndented

variable {token : List Char} {depths depths' : List ℕ}
  {plain plain' indented indented' : List (List Char)}

theorem length_indented (h : IsIndented token depths plain indented) :
    indented.length = plain.length := by
  rw [h.lines_eq, List.length_zipWith, h.length_eq, Nat.min_self]

theorem append (h : IsIndented token depths plain indented)
    (h' : IsIndented token depths' plain' indented') :
    IsIndented token (depths ++ depths') (plain ++ plain') (indented ++ indented') where
  length_eq := by rw [List.length_append, List.length_append, h.length_eq, h'.length_eq]
  lines_eq := by rw [List.zipWith_append h.length_eq.symm, h.lines_eq, h'.lines_eq]

/-- Lines that are in no block are not indented. -/
theorem flush {n : ℕ} (h : plain.length = n) :
    IsIndented token (List.replicate n 0) plain plain where
  length_eq := by rw [h, List.length_replicate]
  lines_eq := by
    subst h
    induction plain with
    | nil => rfl
    | cons line rest ih =>
      rw [List.length_cons, List.replicate_succ, List.zipWith_cons_cons, ← ih]
      rfl

/-- One more block puts one more token in front. -/
theorem deeper (h : IsIndented token depths plain indented) :
    IsIndented token (depths.map (· + 1)) plain (indented.map (token ++ ·)) where
  length_eq := by rw [h.length_eq, List.length_map]
  lines_eq := by
    rw [h.lines_eq, List.map_zipWith, List.zipWith_map_left]
    simp only [List.replicate_succ, List.flatten_cons, List.append_assoc]

end IsIndented

/-! ## §5. The text of a statement. -/

/-- The comment lines of a head. -/
def Head.commentLines {α : Type} (h : Head α) : List (List Char) :=
  h.comments.flatMap fun comment => (lines comment.toList).map (['/', '/', ' '] ++ ·)

/-- Comments come first, and then the line of the call goes on. -/
theorem lines_head (format : Format) (h : Head Float) (rest : List Char) :
    lines (h.chars format ++ rest) = h.commentLines ++ lines (h.line format.precision ++ rest) := by
  have hcomments (comments : List String) (code : List Char) :
      lines (comments.flatMap (fun comment => Source.commentLines comment.toList) ++ code)
        = (comments.flatMap fun comment => (lines comment.toList).map (['/', '/', ' '] ++ ·))
          ++ lines code := by
    induction comments with
    | nil => rfl
    | cons comment comments ih =>
      rw [List.flatMap_cons, List.flatMap_cons, List.append_assoc, List.append_assoc,
        lines_commentLines, ih]
  rw [Head.chars, Head.commentLines, ← hcomments]
  simp only [Head.line, List.append_assoc]

/-- The items of a block follow line by line. -/
theorem lines_blockLines (format : Format) (code : List Char) (items : List (Statement Float)) :
    lines (code ++ blockLines format items)
      = lines code
        ++ items.flatMap fun s => lines (indent format.indent.toList (s.chars format)) := by
  induction items generalizing code with
  | nil => rw [blockLines, List.append_nil, List.flatMap_nil, List.append_nil]
  | cons s rest ih => rw [blockLines, lines_append, ih, List.flatMap_cons]

variable (token : String) {precision : UInt32}

/-- The line of a call and its comments are not indented. -/
theorem isIndented_head {h : Head Float} (hline : IsLine (h.line precision)) (body : List Char)
    (hbody : IsLine body) :
    IsIndented token.toList (Row.depths ⟨0, h.comments⟩)
      (lines (h.chars ⟨"", precision⟩ ++ body)) (lines (h.chars ⟨token, precision⟩ ++ body)) := by
  rw [lines_head, lines_head, lines_of_isLine (hline.append hbody)]
  refine .flush ?_
  simp only [Row.height, Head.commentLines, List.length_append, List.length_flatMap,
    List.length_map, List.length_singleton]

/-- A brace that is alone on its line is not indented. -/
theorem isIndented_brace {brace : Char} (hbrace : IsLine [brace]) :
    IsIndented token.toList (depthsOf [⟨0, []⟩]) (lines [brace]) (lines [brace]) := by
  have hflush : IsIndented token.toList (List.replicate 1 0) [[brace]] [[brace]] := .flush rfl
  rw [lines_of_isLine hbrace]
  exact hflush

/-- What opens a block is not indented. -/
theorem isIndented_opening {h : Head Float} (hline : IsLine (h.line precision))
    (opening : Opening) :
    IsIndented token.toList (depthsOf (⟨0, h.comments⟩ :: opening.rows))
      (lines (h.chars ⟨"", precision⟩ ++ opening.chars))
      (lines (h.chars ⟨token, precision⟩ ++ opening.chars)) := by
  cases opening with
  | sameLine =>
    rw [Opening.rows, depthsOf, List.flatMap_singleton]
    exact isIndented_head token hline [' ', '\x7b'] (by decide)
  | nextLine =>
    have hhead := isIndented_head token hline [] (by decide)
    rw [List.append_nil, List.append_nil] at hhead
    rw [Opening.chars, lines_append, lines_append]
    exact hhead.append (isIndented_brace token (by decide))

mutual

/-- **A token is put before each line as often as there are blocks around it.** -/
theorem isIndented_chars {token : String} (htoken : IsLine token.toList) : (s : Statement Float) →
    (s.phrase precision).IsGrammatical →
    IsIndented token.toList s.depths (lines (s.chars ⟨"", precision⟩))
      (lines (s.chars ⟨token, precision⟩))
  | .call head, .call h _ => by
    rw [Statement.depths, Statement.rows, depthsOf, List.flatMap_singleton]
    exact isIndented_head token (Head.isLine_line h) [';'] (by decide)
  | .over head operand, .onto h _ hoperand => by
    have hhead := isIndented_head token (Head.isLine_line h) [] (by decide)
    rw [List.append_nil, List.append_nil] at hhead
    rw [Statement.chars, Statement.chars, lines_append, lines_append]
    exact hhead.append (isIndented_chars htoken operand hoperand)
  | .block head opening items, .block h hitems => by
    have hopening := isIndented_opening token (Head.isLine_line h) opening
    have hblock := hopening.append (isIndented_items htoken items hitems)
    have hclosing : IsLine ['\x7d'] := by decide
    have hall := hblock.append (isIndented_brace token hclosing)
    have hrows : (Statement.block head opening items).rows
        = (⟨0, head.comments⟩ :: opening.rows) ++ (rowsOfItems items).map Row.deeper
          ++ [⟨0, []⟩] := by
      rw [Statement.rows, List.cons_append, List.cons_append]
    rw [Statement.chars, Statement.chars, lines_append, lines_append, lines_blockLines,
      lines_blockLines, Statement.depths, hrows, depthsOf_append, depthsOf_append]
    exact hall

/-- The items of a block are one block deeper. -/
theorem isIndented_items {token : String} (htoken : IsLine token.toList) :
    (items : List (Statement Float)) → (∀ p ∈ phrasesOf precision items, p.IsGrammatical) →
    IsIndented token.toList (depthsOf ((rowsOfItems items).map Row.deeper))
      (items.flatMap fun s => lines (indent "".toList (s.chars ⟨"", precision⟩)))
      (items.flatMap fun s => lines (indent token.toList (s.chars ⟨token, precision⟩)))
  | [], _ => ⟨rfl, rfl⟩
  | s :: rest, h => by
    obtain ⟨hs, hrest⟩ := List.forall_mem_cons.mp h
    have hdeeper := (isIndented_chars htoken s hs).deeper
    have hempty : IsLine "".toList := by decide
    rw [List.flatMap_cons, List.flatMap_cons, lines_indent htoken, lines_indent hempty,
      rowsOfItems, List.map_append, depthsOf_append, depthsOf_deeper]
    simp only [String.toList_empty, List.nil_append, List.map_id']
    exact hdeeper.append (isIndented_items htoken rest hrest)

end

/-! ## §6. The source of a tree. -/

variable {token : String}

/-- **Indentation is layout and nothing else.** A tree has a source text with a token just if it
has one without. The texts have the same number of lines, and each line is that of the text
without a token behind as many tokens as there are blocks around it. How many those are for each
line of code and the comments above it is the same for all trees that are the same but for what
their comments and texts say. -/
theorem source_indented (htoken : '\n' ∉ token.toList) (precision : UInt32) (n : Node Float) :
    ((∃ text, n.source ⟨token, precision⟩ = .ok text) ↔
      ∃ text, n.source ⟨"", precision⟩ = .ok text) ∧
    ∀ indented plain, n.source ⟨token, precision⟩ = .ok indented →
      n.source ⟨"", precision⟩ = .ok plain →
      (lines indented.toList).length = (lines plain.toList).length ∧
      ∃ s, n.statement = .ok s ∧
        IsIndented token.toList s.depths (lines plain.toList) (lines indented.toList) ∧
        ∀ n' : Node Float, n'.blanked = n.blanked → ∃ s', n'.statement = .ok s' ∧
          s'.rows.map (·.depth) = s.rows.map (·.depth) := by
  have hsource (format : Format) (text : String) :
      n.source format = .ok text ↔ ∃ s, n.statement = .ok s ∧ s.text format = text :=
    Outcome.map_eq_ok
  refine ⟨⟨?_, ?_⟩, ?_⟩
  · rintro ⟨text, htext⟩
    obtain ⟨s, hs, -⟩ := (hsource _ _).mp htext
    exact ⟨_, (hsource _ _).mpr ⟨s, hs, rfl⟩⟩
  · rintro ⟨text, htext⟩
    obtain ⟨s, hs, -⟩ := (hsource _ _).mp htext
    exact ⟨_, (hsource _ _).mpr ⟨s, hs, rfl⟩⟩
  · intro indented plain hindented hplain
    obtain ⟨s, hs, rfl⟩ := (hsource _ _).mp hindented
    obtain ⟨s', hs', rfl⟩ := (hsource _ _).mp hplain
    obtain rfl : s = s' := Except.ok.inj (hs.symm.trans hs')
    have hlaid : IsIndented token.toList s.depths (lines (s.text ⟨"", precision⟩).toList)
        (lines (s.text ⟨token, precision⟩).toList) := by
      rw [Statement.text, Statement.text, String.toList_ofList, String.toList_ofList]
      exact isIndented_chars htoken s ((isGrammatical_draw n).alone s hs)
    refine ⟨hlaid.length_indented, s, hs, hlaid, fun n' hblank => ?_⟩
    have hframe := frame_statement_congr hblank
    rw [hs] at hframe
    obtain ⟨s', hs', hsame⟩ := Outcome.map_eq_ok.mp hframe
    refine ⟨s', hs', ?_⟩
    rw [← s'.rows_frame, hsame, s.rows_frame]

/-! A plate with a comment of two lines, from which the hull of two balls is cut. -/

/-- The plate without the hull. -/
def slottedPlate : Node Float :=
  .compose { comment := some "slotted\nplate" } .difference
    [.leaf {} (.cube ⟨9, 9, 1⟩), .apply {} .hull [.leaf {} (.sphere 1 8), .leaf {} (.sphere 2 8)]]

/-- The balls are two tabs from the left, and the comment is not indented. -/
theorem source_indented_slottedPlate :
    '\n' ∉ "\t".toList ∧ ∃ indented plain s,
      slottedPlate.source ⟨"\t", 4⟩ = .ok indented ∧ slottedPlate.source ⟨"", 4⟩ = .ok plain ∧
      slottedPlate.statement = .ok s ∧ s.depths = [0, 0, 0, 1, 1, 1, 2, 2, 1, 0] ∧
      IsIndented "\t".toList s.depths (lines plain.toList) (lines indented.toList) := by
  have htab : '\n' ∉ "\t".toList := by decide
  obtain ⟨hiff, hlaid⟩ := source_indented htab 4 slottedPlate
  obtain ⟨indented, hindented⟩ : ∃ text, slottedPlate.source ⟨"\t", 4⟩ = .ok text := ⟨_, rfl⟩
  obtain ⟨plain, hplain⟩ := hiff.mp ⟨indented, hindented⟩
  obtain ⟨-, s, hs, hlines, -⟩ := hlaid indented plain hindented hplain
  have hdepths : s.depths = [0, 0, 0, 1, 1, 1, 2, 2, 1, 0] := by
    cases hs
    rfl
  exact ⟨htab, indented, plain, s, hindented, hplain, hs, hdepths, hlines⟩

end SolidTree
