/-
  SolidTree.Proofs.Json.Tokens
  ────────────────────────────
  **TOKENS OF JSON TEXT.**

  Each token that is written is read back in front of whatever follows it,
  where what follows a number may not go on with it:

      number?_chars  — a number, as it is spelled
      token?_quote   — a text, with its escapes
      Scans cs ts    — the characters are cut into these tokens
      Spells cs ts   — so are these, whatever is scanned behind them
-/
import SolidTree.Json.Reader
import SolidTree.Json.Text
import SolidTree.Proofs.Double.Spelling

namespace SolidTree.Json

/-! ## §1. Numbers. -/

/-- A number cannot go on here. -/
def Ends (rest : List Char) : Prop :=
  ∀ c cs, rest = c :: cs → c.isDigit = false ∧ c ≠ '.' ∧ c ≠ 'e' ∧ c ≠ 'E'

theorem ends_nil : Ends [] := nofun

theorem ends_cons {c : Char} (h : c.isDigit = false ∧ c ≠ '.' ∧ c ≠ 'e' ∧ c ≠ 'E')
    (cs : List Char) : Ends (c :: cs) := by
  rintro _ _ ⟨⟩
  exact h

theorem Ends.noDigit {rest : List Char} (h : Ends rest) : Spelling.NoDigit rest := fun c cs hc =>
  (h c cs hc).1

theorem digits?_append {digits rest : List Char} (hne : digits ≠ [])
    (hdigits : Spelling.AreDigits digits) (hrest : Spelling.NoDigit rest) :
    digits? (digits ++ rest) = some (digits, rest) := by
  obtain ⟨htake, hdrop⟩ := Spelling.span_digits hdigits hrest
  unfold digits?
  rw [htake, hdrop]
  cases digits with
  | nil => exact absurd rfl hne
  | cons c cs => rfl

theorem wholePart?_append {s : Spelling} (h : s.IsProper) {rest : List Char}
    (hrest : Spelling.NoDigit rest) : wholePart? (s.whole ++ rest) = some (s.whole, rest) := by
  rcases h.first with hzero | ⟨c, cs, hc, hne⟩
  · rw [hzero]
    rfl
  · have hdigits := digits?_append h.whole_ne_nil h.whole hrest
    rw [hc, List.cons_append] at hdigits ⊢
    unfold wholePart?
    split
    next heq => exact absurd (List.cons.inj heq).1 hne
    next => exact hdigits

theorem fraction?_append {digits rest : List Char} (hdigits : Spelling.AreDigits digits)
    (hrest : Spelling.NoDigit rest) (hpoint : ∀ cs, rest ≠ '.' :: cs) :
    fraction? (Spelling.point digits ++ rest) = some (Spelling.point digits, rest) := by
  cases digits with
  | nil =>
    unfold fraction?
    split
    next heq => exact absurd heq (hpoint _)
    next => rfl
  | cons c cs =>
    have h := digits?_append (List.cons_ne_nil c cs) hdigits hrest
    show (digits? (c :: cs ++ rest)).bind _ = _
    rw [h]
    rfl

theorem exponent?_append {e : Option (Bool × List Char)}
    (h : ∀ p ∈ e, p.2 ≠ [] ∧ Spelling.AreDigits p.2) {rest : List Char} (hrest : Ends rest) :
    exponent? (Spelling.letter e ++ rest) = some (Spelling.letter e, rest) := by
  cases e with
  | none =>
    cases rest with
    | nil => rfl
    | cons c cs =>
      obtain ⟨-, -, he, hE⟩ := hrest c cs rfl
      have hno : ¬ (c = 'e' ∨ c = 'E') := fun h => h.elim he hE
      simp [Spelling.letter, exponent?, hno]
  | some p =>
    obtain ⟨negative, digits⟩ := p
    obtain ⟨hne, hdigits⟩ := h _ rfl
    have hread := digits?_append hne hdigits hrest.noDigit
    cases negative <;> simp [Spelling.letter, exponent?, hread]

theorem Ends.ne_point {rest : List Char} (h : Ends rest) (e : Option (Bool × List Char))
    (cs : List Char) : Spelling.letter e ++ rest ≠ '.' :: cs := by
  cases e with
  | none => exact fun heq => (h _ _ heq).2.1 rfl
  | some p =>
    intro heq
    cases (List.cons.inj heq).1

/-- A number is read as it is spelled. -/
theorem number?_chars {s : Spelling} (h : s.IsProper) {rest : List Char} (hrest : Ends rest) :
    number? (s.chars ++ rest) = some (String.ofList s.chars, rest) := by
  have hletter : Spelling.NoDigit (Spelling.letter s.exponent ++ rest) := by
    cases hs : s.exponent with
    | none => exact hrest.noDigit
    | some p => exact Spelling.noDigit_cons rfl _
  have hpoint : Spelling.NoDigit
      (Spelling.point s.fraction ++ (Spelling.letter s.exponent ++ rest)) := by
    cases hs : s.fraction with
    | nil => exact hletter
    | cons c cs => exact Spelling.noDigit_cons rfl _
  have hexponent := exponent?_append h.exponent hrest
  have hfraction := fraction?_append h.fraction hletter (hrest.ne_point s.exponent)
  have hwhole := wholePart?_append h hpoint
  obtain ⟨c, cs, hc, hdigit⟩ := h.exists_digit
  have hminus : c ≠ '-' := fun heq => by simp [heq] at hdigit
  unfold number? Spelling.chars
  rw [hc, List.cons_append] at hwhole ⊢
  cases s.negative with
  | true => simp [Spelling.sign, hwhole, hfraction, hexponent, String.append_assoc]
  | false => simp [Spelling.sign, hwhole, hfraction, hexponent, hminus, String.append_assoc]

/-! ## §2. Texts. -/

/-- What a character of a text is read as before surrogates are joined. -/
def piece (c : Char) : Piece :=
  if c.toNat < 0x20 ∧ c ∉ ['\x08', '\x0c', '\n', '\r', '\t'] then .unit c.toNat else .char c

/-- Control characters are written with four hexadecimal digits. -/
theorem hexDigits_spec {n : ℕ} (h : n < 0x20) :
    ∃ a b c d, hexDigits n = [a, b, c, d] ∧ hexNumber? [a, b, c, d] = some n := by
  have htable : ∀ i : Fin 0x20, (hexDigits i).length = 4 ∧ hexNumber? (hexDigits i) = some i.val := by
    decide
  obtain ⟨hlength, hnumber⟩ := htable ⟨n, h⟩
  obtain ⟨a, b, c, d, hdigits⟩ := List.length_eq_four.mp hlength
  exact ⟨a, b, c, d, hdigits, hdigits ▸ hnumber⟩

/-- A character is read as it is written. -/
theorem pieces?_escapeChar (c : Char) (rest : List Char) :
    pieces? (escapeChar c ++ rest)
      = (pieces? rest).map fun (ps, rest) => (piece c :: ps, rest) := by
  have hescape {e : Char} (he : unescape? e = some c) (hu : e ≠ 'u') (hc : piece c = .char c) :
      pieces? ('\\' :: e :: rest) = (pieces? rest).map fun (ps, rest) => (piece c :: ps, rest) := by
    rw [pieces?, he, hc]
    · cases pieces? rest <;> rfl
    · exact fun _ _ _ _ _ h _ => hu h
  unfold escapeChar
  split
  next => exact hescape rfl (by decide) rfl
  next => exact hescape rfl (by decide) rfl
  next => exact hescape rfl (by decide) rfl
  next => exact hescape rfl (by decide) rfl
  next => exact hescape rfl (by decide) rfl
  next => exact hescape rfl (by decide) rfl
  next => exact hescape rfl (by decide) rfl
  next hquote hslash hb hf hn hr ht =>
    have hnamed : c ∉ ['\x08', '\x0c', '\n', '\r', '\t'] := by
      simp only [List.mem_cons, List.not_mem_nil, or_false, not_or]
      exact ⟨hb, hf, hn, hr, ht⟩
    by_cases hcontrol : c.toNat < 0x20
    · obtain ⟨x, y, z, w, hdigits, hnumber⟩ := hexDigits_spec hcontrol
      have hpiece : piece c = .unit c.toNat := if_pos ⟨hcontrol, hnamed⟩
      rw [if_pos hcontrol, hdigits, hpiece]
      show pieces? ('\\' :: 'u' :: x :: y :: z :: w :: rest) = _
      rw [pieces?, hnumber]
      cases pieces? rest <;> rfl
    · have hpiece : piece c = .char c := if_neg fun h => hcontrol h.1
      rw [if_neg hcontrol, hpiece]
      show pieces? (c :: rest) = _
      rw [pieces?, if_neg hcontrol]
      · cases pieces? rest <;> rfl
      · exact hquote
      · exact fun _ _ _ _ _ h _ => hslash h
      · exact fun _ _ h _ => hslash h

theorem pieces?_body (cs rest : List Char) :
    pieces? (cs.flatMap escapeChar ++ '"' :: rest) = some (cs.map piece, rest) := by
  induction cs with
  | nil => rfl
  | cons c cs ih =>
    rw [List.flatMap_cons, List.append_assoc, pieces?_escapeChar, ih]
    rfl

/-- No piece of a written text is half of a surrogate pair. -/
theorem join?_piece (c : Char) (ps : List Piece) :
    join? (piece c :: ps) = (join? ps).map (c :: ·) := by
  unfold piece
  split_ifs with h
  · have hhigh : isHighSurrogate c.toNat = false := by
      have := h.1
      simp [isHighSurrogate]
      omega
    have hlow : isLowSurrogate c.toNat = false := by
      have := h.1
      simp [isLowSurrogate]
      omega
    have hchar : Char.ofNat c.toNat = c := Char.ofNat_toNat c
    cases ps with
    | nil => simp [join?, hhigh, hlow, hchar]
    | cons p ps =>
      cases p <;> simp [join?, hhigh, hlow, hchar]
  · rfl

theorem join?_pieces (cs : List Char) : join? (cs.map piece) = some cs := by
  induction cs with
  | nil => rfl
  | cons c cs ih =>
    rw [List.map_cons, join?_piece, ih]
    rfl

/-- A text is read as it is written. -/
theorem token?_quote (s : Option String) (rest : List Char) :
    token? (quote s ++ rest) = some (.text (some (s.getD "")), rest) := by
  have hbody := pieces?_body (s.getD "").toList rest
  have hjoin := join?_pieces (s.getD "").toList
  show (pieces? (_ ++ rest)).bind _ = _
  rw [List.append_assoc, List.singleton_append, hbody]
  show some (Token.text ((join? _).map String.ofList), rest) = _
  rw [hjoin, Option.map_some, String.ofList_toList]

/-! ## §3. Scanning. -/

/-- The characters are cut into these tokens, and there is work enough allowed for it. -/
def Scans (cs : List Char) (ts : List Token) : Prop := ∀ n, cs.length ≤ n → scan n cs = some ts

variable {cs ds : List Char} {ts us : List Token}

theorem scans_nil : Scans [] [] := fun n _ => by cases n <;> rfl

theorem Scans.blank {c : Char} (hc : isBlank c = true) (h : Scans cs ts) : Scans (c :: cs) ts := by
  intro n hn
  have hscan := h n (Nat.le_of_succ_le hn)
  unfold scan at hscan ⊢
  rwa [List.dropWhile_cons_of_pos hc]

theorem Scans.blanks {blanks : List Char} (hblanks : ∀ c ∈ blanks, isBlank c = true)
    (h : Scans cs ts) : Scans (blanks ++ cs) ts := by
  induction blanks with
  | nil => exact h
  | cons c blanks ih =>
    rw [List.forall_mem_cons] at hblanks
    exact (ih hblanks.2).blank hblanks.1

/-- A token at the start is the first one. -/
theorem Scans.token {c : Char} {t : Token} (hc : isBlank c = false)
    (htoken : token? (c :: cs) = some (t, ds)) (hlength : ds.length ≤ cs.length)
    (h : Scans ds ts) : Scans (c :: cs) (t :: ts) := by
  intro n hn
  obtain ⟨n, rfl⟩ := Nat.exists_eq_add_one_of_ne_zero (Nat.ne_zero_of_lt hn)
  have hscan := h n (hlength.trans (Nat.le_of_succ_le_succ hn))
  unfold scan
  rw [List.dropWhile_cons_of_neg (by simp [hc])]
  show (token? (c :: cs)).bind _ = _
  rw [htoken]
  show (scan n ds).bind _ = _
  rw [hscan]
  rfl

/-- The characters are cut into these tokens, whatever is scanned behind them that no
number goes on with. -/
def Spells (cs : List Char) (ts : List Token) : Prop :=
  ∀ rest us, Ends rest → Scans rest us → Scans (cs ++ rest) (ts ++ us)

/-- What starts like a number is read as one. -/
theorem token?_number {c : Char} (hc : c.isDigit = true ∨ c = '-') (cs : List Char) :
    token? (c :: cs) = (number? (c :: cs)).map fun (written, rest) => (.number written, rest) := by
  rcases hc with hc | rfl
  · have hne {d : Char} (hd : d.isDigit = false) (heq : c = d) : False := by
      rw [heq, hd] at hc
      cases hc
    unfold token?
    split <;> rename_i heq
    all_goals first
      | rfl
      | exact (hne rfl (List.cons.inj heq).1).elim
      | cases heq
  · rfl

theorem spells_number {s : Spelling} (h : s.IsProper) :
    Spells s.chars [.number (String.ofList s.chars)] := by
  intro rest us hrest hscans
  have hread := number?_chars h hrest
  obtain ⟨c, cs, hchars, hc⟩ : ∃ c cs, s.chars = c :: cs ∧ (c.isDigit = true ∨ c = '-') := by
    obtain ⟨c, cs, hc, hdigit⟩ := h.exists_digit
    unfold Spelling.chars
    rw [hc]
    cases s.negative with
    | true => exact ⟨'-', _, rfl, .inr rfl⟩
    | false => exact ⟨c, _, rfl, .inl hdigit⟩
  have hblank : isBlank c = false := by
    rcases hc with hc | rfl
    · unfold isBlank
      have hne {d : Char} (hd : d.isDigit = false) : c ≠ d := fun heq => by
        rw [heq, hd] at hc
        cases hc
      simp [hne (d := ' ') rfl, hne (d := '\n') rfl, hne (d := '\t') rfl, hne (d := '\r') rfl]
    · rfl
  rw [hchars, List.cons_append] at hread ⊢
  refine hscans.token hblank ?_ (List.suffix_append cs rest).length_le
  rw [token?_number hc, hread]
  rfl

theorem spells_quote (s : Option String) : Spells (quote s) [.text (some (s.getD ""))] := by
  intro rest us _ hscans
  exact hscans.token rfl (token?_quote s rest) (List.suffix_append _ rest).length_le

theorem spells_null : Spells "null".toList [.null] := by
  intro rest us _ hscans
  show Scans ('n' :: 'u' :: 'l' :: 'l' :: rest) _
  exact hscans.token rfl (by simp [token?, afterWord?]) (by simp; omega)

theorem spells_boolean (b : Bool) :
    Spells (if b then "true" else "false").toList [.boolean b] := by
  intro rest us _ hscans
  cases b
  · show Scans ('f' :: 'a' :: 'l' :: 's' :: 'e' :: rest) _
    exact hscans.token rfl (by simp [token?, afterWord?]) (by simp; omega)
  · show Scans ('t' :: 'r' :: 'u' :: 'e' :: rest) _
    exact hscans.token rfl (by simp [token?, afterWord?]) (by simp; omega)

end SolidTree.Json
