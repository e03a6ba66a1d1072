/-
  SolidTree.Proofs.Grammar.Lexer
  ──────────────────────────────
  **TOKENS OF SOURCE TEXT.**

  Text is read from left to right, one character after the other, and what
  has been read of an unfinished token is the mode of the reader:

      comment  — from `//` to the next line end
      text     — between double quotes, with backslash escapes, on one line
      word     — letters and digits, and what names and numbers have besides
      mark     — a bracket, a comma, a sign

  Blanks separate tokens and are dropped.  Since neither a text nor a word
  goes on after a line end, blanks at the start of a line are never part of
  a token: indented lines read as they do without.

      Reads m cs ts m'  — in mode `m` the characters are read as the tokens,
                          and `m'` is the mode after them
      Lexes cs ts       — the characters are read as these tokens and
                          nothing is left unfinished
-/
import SolidTree.Source.Lines

namespace SolidTree.Grammar

/-! ## §1. Reading characters. -/

/-- A token of source text. -/
inductive Token where
  /-- What stands behind the slashes. -/
  | comment (line : List Char)
  | word (cs : List Char)
  /-- What the literal stands for. -/
  | text (cs : List Char)
  | mark (c : Char)
  deriving Repr, DecidableEq

/-- What has been read of an unfinished token. -/
inductive Mode where
  | between
  | word (cs : List Char)
  /-- One slash. -/
  | slash
  | comment (line : List Char)
  | text (cs : List Char)
  /-- A text that ends in an open escape. -/
  | escape (cs : List Char)
  deriving Repr, DecidableEq

/-- A blank between tokens. -/
def isSpace (c : Char) : Bool := c == ' ' || c == '\t' || c == '\n'

/-- A character of a name or of a number. -/
def isLetter (c : Char) : Bool :=
  c.isAlphanum || c == '_' || c == '$' || c == '.' || c == '-'

/-- A character that is a token by itself. -/
def isMark (c : Char) : Bool :=
  ['(', ')', '[', ']', '\x7b', '\x7d', ',', '=', ';', '*', '#', '%', '!'].contains c

/-- The first character of a token. -/
def start (c : Char) : Option (List Token × Mode) :=
  if isSpace c then some ([], .between)
  else if isLetter c then some ([], .word [c])
  else if isMark c then some ([.mark c], .between)
  else if c = '/' then some ([], .slash)
  else if c = '"' then some ([], .text [])
  else none

/-- The character that is meant by one behind a backslash. -/
def unescape? : Char → Option Char
  | '\\' => some '\\'
  | '"' => some '"'
  | 'n' => some '\n'
  | 't' => some '\t'
  | _ => none

/-- One more character: the token that ends with or before it, and the mode after it. -/
def step : Mode → Char → Option (List Token × Mode)
  | .between, c => start c
  | .word cs, c =>
    if isLetter c then some ([], .word (cs ++ [c]))
    else (start c).map fun (ts, m) => (.word cs :: ts, m)
  | .slash, c => if c = '/' then some ([], .comment []) else none
  | .comment line, c =>
    if c = '\n' then some ([.comment line], .between) else some ([], .comment (line ++ [c]))
  | .text cs, c =>
    if c = '"' then some ([.text cs], .between)
    else if c = '\\' then some ([], .escape cs)
    else if c = '\n' then none
    else some ([], .text (cs ++ [c]))
  | .escape cs, c => (unescape? c).map fun c => ([], .text (cs ++ [c]))

/-- The tokens that end within some characters, and the mode after them. -/
def run : Mode → List Char → Option (List Token × Mode)
  | m, [] => some ([], m)
  | m, c :: rest => do
    let (ts, m') ← step m c
    let (us, m'') ← run m' rest
    return (ts ++ us, m'')

/-- The tokens of a text; `none` if one is not finished, or if a character is out of
place. -/
def tokens? (text : String) : Option (List Token) :=
  match run .between text.toList with
  | some (ts, .between) => some ts
  | some (ts, .word cs) => some (ts ++ [.word cs])
  | _ => none

/-! ## §2. What is read of a stretch of characters. -/

/-- In mode `m` the characters are read as the tokens `ts`, and then the mode is `m'`. -/
def Reads (m : Mode) (cs : List Char) (ts : List Token) (m' : Mode) : Prop :=
  run m cs = some (ts, m')

/-- The characters are read as these tokens, with nothing open before or after. -/
abbrev Lexes (cs : List Char) (ts : List Token) : Prop := Reads .between cs ts .between

variable {m m' m'' : Mode} {c : Char} {cs ds : List Char} {ts us : List Token}

theorem reads_nil (m : Mode) : Reads m [] [] m := rfl

theorem reads_cons :
    Reads m (c :: cs) ts m'' ↔
      ∃ us m' vs, step m c = some (us, m') ∧ Reads m' cs vs m'' ∧ us ++ vs = ts := by
  unfold Reads
  rw [run]
  constructor
  · intro h
    obtain ⟨⟨us, m'⟩, hstep, h⟩ := Option.bind_eq_some_iff.mp h
    obtain ⟨⟨vs, m₁⟩, hrest, h⟩ := Option.bind_eq_some_iff.mp h
    cases h
    exact ⟨us, m', vs, hstep, hrest, rfl⟩
  · rintro ⟨us, m', vs, hstep, hrest, rfl⟩
    rw [hstep, Option.bind_eq_bind, Option.bind_some]
    show (run m' cs).bind _ = _
    rw [hrest]
    rfl

theorem Reads.cons (hstep : step m c = some (ts, m')) (h : Reads m' cs us m'') :
    Reads m (c :: cs) (ts ++ us) m'' :=
  reads_cons.mpr ⟨ts, m', us, hstep, h, rfl⟩

theorem Reads.append (h : Reads m cs ts m') (h' : Reads m' ds us m'') :
    Reads m (cs ++ ds) (ts ++ us) m'' := by
  induction cs generalizing m ts with
  | nil =>
    cases h
    exact h'
  | cons c cs ih =>
    obtain ⟨first, m₁, rest, hstep, hrest, rfl⟩ := reads_cons.mp h
    rw [List.append_assoc]
    exact .cons hstep (ih hrest)

/-- What is read of two stretches in a row is read of the one and then of the other. -/
theorem Reads.of_append (h : Reads m (cs ++ ds) ts m'') :
    ∃ us m' vs, Reads m cs us m' ∧ Reads m' ds vs m'' ∧ us ++ vs = ts := by
  induction cs generalizing m ts with
  | nil => exact ⟨[], m, ts, reads_nil m, h, rfl⟩
  | cons c cs ih =>
    obtain ⟨first, m₁, others, hstep, hrest, rfl⟩ := reads_cons.mp h
    obtain ⟨us, m', vs, hcs, hds, rfl⟩ := ih hrest
    exact ⟨first ++ us, m', vs, .cons hstep hcs, hds, List.append_assoc ..⟩

theorem Lexes.tokens?_eq {text : String} (h : Lexes text.toList ts) : tokens? text = some ts := by
  unfold Lexes Reads at h
  rw [tokens?, h]

/-- What is read in front of a bracket is read at the end of a text. -/
theorem tokens?_of_bracket {text : String}
    (h : Lexes (text.toList ++ [')']) (ts ++ [.mark ')'])) : tokens? text = some ts := by
  obtain ⟨us, m', vs, htext, hbracket, heq⟩ := h.of_append
  unfold Reads at htext
  -- Only between tokens and behind a word is a bracket a token of its own.
  cases m' with
  | between =>
    cases hbracket
    rw [tokens?, htext, List.append_cancel_right heq]
  | word cs =>
    cases hbracket
    have hts : (us ++ [.word cs]) ++ [.mark ')'] = ts ++ [.mark ')'] := by
      rw [List.append_assoc]
      exact heq
    rw [tokens?, htext, ← List.append_cancel_right hts]
  | slash | comment _ | text _ | escape _ => cases hbracket

/-! ## §3. Single tokens. -/

theorem lexes_mark (hc : step .between c = some ([.mark c], .between)) (h : Lexes cs ts) :
    Lexes (c :: cs) (.mark c :: ts) :=
  .cons hc h

theorem reads_space (hc : isSpace c = true) (h : Reads .between cs ts m') :
    Reads .between (c :: cs) ts m' := by
  have hstep : step .between c = some ([], .between) := if_pos hc
  exact .cons hstep h

theorem reads_spaces {spaces : List Char} (hspaces : spaces.all isSpace = true)
    (h : Reads .between cs ts m') : Reads .between (spaces ++ cs) ts m' := by
  induction spaces with
  | nil => exact h
  | cons c spaces ih =>
    rw [List.all_cons, Bool.and_eq_true] at hspaces
    exact reads_space hspaces.1 (ih hspaces.2)

theorem reads_letters {w : List Char} (hcs : ∀ c ∈ cs, isLetter c = true) :
    Reads (.word w) cs [] (.word (w ++ cs)) := by
  induction cs generalizing w with
  | nil =>
    rw [List.append_nil]
    exact reads_nil _
  | cons c cs ih =>
    rw [List.forall_mem_cons] at hcs
    have hstep : step (.word w) c = some ([], .word (w ++ [c])) := if_pos hcs.1
    have hrest := ih (w := w ++ [c]) hcs.2
    rw [List.append_assoc, List.singleton_append] at hrest
    exact .cons hstep hrest

/-- Characters that are read as one word, if no letter follows. -/
def IsWord (cs : List Char) : Prop := cs ≠ [] ∧ ∀ c ∈ cs, isLetter c = true

instance : DecidablePred IsWord := fun cs =>
  decidable_of_iff (cs.isEmpty = false ∧ cs.all isLetter = true) <| by
    rw [List.isEmpty_eq_false_iff, List.all_eq_true, IsWord]

/-- The characters do not go on with a letter. -/
def Stops (cs : List Char) : Prop := ∃ c rest, cs = c :: rest ∧ isLetter c = false

theorem lexes_word {w : List Char} (hw : IsWord w) (hstops : Stops cs) (h : Lexes cs ts) :
    Lexes (w ++ cs) (.word w :: ts) := by
  obtain ⟨hne, hletters⟩ := hw
  obtain ⟨first, rest, rfl⟩ := List.exists_cons_of_ne_nil hne
  rw [List.forall_mem_cons] at hletters
  obtain ⟨c, cs, rfl, hc⟩ := hstops
  -- A letter is no blank, so it opens a word.
  have hopens : step .between first = some ([], .word [first]) := by
    have hspace : ¬ isSpace first = true := fun hspace => by
      unfold isSpace at hspace
      simp only [Bool.or_eq_true, beq_iff_eq] at hspace
      rcases hspace with (rfl | rfl) | rfl <;> exact absurd hletters.1 (by decide)
    rw [step, start, if_neg hspace, if_pos hletters.1]
  -- What ends the word is read as if nothing stood before it.
  have hends : Reads (.word (first :: rest)) (c :: cs) (.word (first :: rest) :: ts) .between := by
    obtain ⟨us, m', vs, hstep, hrest, rfl⟩ := reads_cons.mp h
    have hstart : start c = some (us, m') := hstep
    have hword : step (.word (first :: rest)) c = some (.word (first :: rest) :: us, m') := by
      rw [step, hc, hstart]
      rfl
    exact .cons hword hrest
  exact .cons hopens ((reads_letters hletters.2).append hends)

/-- A character as it is written in a literal is read as that character. -/
theorem reads_escapeChar (t : List Char) (c : Char) :
    Reads (.text t) (Source.escapeChar c) [] (.text (t ++ [c])) := by
  unfold Source.escapeChar
  split
  next => rfl
  next => rfl
  next => rfl
  next => rfl
  next hbackslash hquote hline _ =>
    have hstep : step (.text t) c = some ([], .text (t ++ [c])) := by
      rw [step, if_neg hquote, if_neg hbackslash, if_neg hline]
    exact .cons hstep (reads_nil _)

theorem lexes_quote (s : List Char) (h : Lexes cs ts) :
    Lexes (Source.quote s ++ cs) (.text s :: ts) := by
  have hbody : ∀ t, Reads (.text t) (s.flatMap Source.escapeChar) [] (.text (t ++ s)) := by
    induction s with
    | nil =>
      intro t
      rw [List.append_nil]
      exact reads_nil _
    | cons c s ih =>
      intro t
      have hrest := ih (t ++ [c])
      rw [List.append_assoc, List.singleton_append] at hrest
      exact (reads_escapeChar t c).append hrest
  have hend : Reads (.text s) ['"'] [.text s] .between := rfl
  have hclose := hend.append h
  have hopen : Reads .between ['"'] [] (.text []) := rfl
  have hquote := hopen.append ((hbody []).append hclose)
  rw [List.nil_append, List.nil_append] at hquote
  unfold Source.quote
  rw [List.cons_append, List.append_assoc, List.singleton_append]
  exact hquote

/-! ## §4. Lines. -/

/-- The lines of a comment as they stand behind the slashes. -/
def behindSlashes (comment : List Char) : List (List Char) :=
  (comment.splitOn '\n').map (' ' :: ·)

/-- The rest of a comment, read behind some characters of its first line. -/
theorem reads_commentLines {comment first : List Char} {others : List (List Char)}
    (hlines : comment.splitOn '\n' = first :: others) (read : List Char) :
    Reads (.comment read)
      (comment.flatMap (fun c => if c = '\n' then '\n' :: ['/', '/', ' '] else [c]) ++ ['\n'])
      (.comment (read ++ first) :: (others.map (' ' :: ·)).map .comment) .between := by
  induction comment generalizing read first others with
  | nil =>
    rw [List.splitOn_nil] at hlines
    cases hlines
    rw [List.append_nil]
    rfl
  | cons c comment ih =>
    obtain ⟨next, rest, hnext⟩ := List.exists_cons_of_ne_nil (List.splitOn_ne_nil '\n' comment)
    rw [List.splitOn_cons_eq_if_modifyHead, hnext] at hlines
    rw [List.flatMap_cons, List.append_assoc]
    by_cases hc : c = '\n'
    · -- The line ends here, and the next one begins behind slashes of its own.
      subst hc
      cases hlines
      rw [List.append_nil]
      have hend : Reads (.comment read) ['\n', '/', '/', ' '] [.comment read] (.comment [' ']) := rfl
      exact hend.append (ih hnext [' '])
    · have hstep : step (.comment read) c = some ([], .comment (read ++ [c])) := if_neg hc
      rw [if_neg (by simpa using hc)] at hlines
      cases hlines
      rw [if_neg hc]
      have hrest := ih hnext (read ++ [c])
      rw [List.append_assoc] at hrest
      exact .cons hstep hrest

/-- A comment is read line by line, whatever its lines are made of. -/
theorem lexes_commentLines (comment : List Char) (h : Lexes cs ts) :
    Lexes (Source.commentLines comment ++ cs) ((behindSlashes comment).map .comment ++ ts) := by
  obtain ⟨first, others, hlines⟩ := List.exists_cons_of_ne_nil (List.splitOn_ne_nil '\n' comment)
  have hopen : Reads .between ['/', '/', ' '] [] (.comment [' ']) := rfl
  have hcomment := hopen.append (reads_commentLines hlines [' '])
  unfold behindSlashes Source.commentLines Source.indent
  rw [hlines, List.append_assoc ['/', '/', ' ']]
  exact hcomment.append h

/-- No token goes on after a line end. -/
theorem step_lineEnd (hstep : step m '\n' = some (ts, m')) : m' = .between := by
  cases m <;> cases hstep <;> rfl

/-- Indented lines are read as they are read without. -/
theorem Reads.shift {token : List Char} (htoken : token.all isSpace = true)
    (h : Reads m cs ts m') :
    Reads m (cs.flatMap fun c => if c = '\n' then '\n' :: token else [c]) ts m' := by
  induction cs generalizing m ts with
  | nil => exact h
  | cons c cs ih =>
    obtain ⟨us, m₁, vs, hstep, hrest, rfl⟩ := reads_cons.mp h
    rw [List.flatMap_cons]
    by_cases hc : c = '\n'
    · subst hc
      obtain rfl := step_lineEnd hstep
      rw [if_pos rfl]
      exact .cons hstep (reads_spaces htoken (ih hrest))
    · rw [if_neg hc]
      exact .cons hstep (ih hrest)

theorem Lexes.indent {token : List Char} (htoken : token.all isSpace = true)
    (h : Lexes cs ts) : Lexes (Source.indent token cs) ts :=
  reads_spaces htoken (h.shift htoken)

example : tokens? "// a\n  #text(\"\\\"\");" = some [.comment [' ', 'a'], .mark '#',
    .word ['t', 'e', 'x', 't'], .mark '(', .text ['"'], .mark ')', .mark ';'] := by
  decide

end SolidTree.Grammar
