/-
  SolidTree.Proofs.Text.Separators
  ────────────────────────────────
  **SNAKE CASE ONLY PUTS SEPARATORS IN.**

  A name in snake case is read as pieces: the characters of the name, each
  written in lowercase, and separators between some of them.  A word starts
  behind a letter or a digit and with a capital, and none of these is an
  underscore or has one in its lowercase form; so a separator never comes
  first or last, and never next to another underscore.

      written ps    — the characters that some pieces are written with
      AreApart ps   — each separator stands between two other characters
      IsSettled c   — `c` is no capital and its own lowercase form

  Lowercase letters of ASCII are settled, and in settled characters no word
  starts: for names in ASCII a second conversion changes nothing.

  Main result:
    * `ofCamel_separates` — what a name is turned into, and when for good
-/
import Mathlib.Data.Char
import Mathlib.Data.Int.Notation
import Mathlib.Tactic.SplitIfs
import SolidTree.Text.Snake

namespace SolidTree

/-! ## §1. Lowercase forms. -/

namespace Letter

/-- Every character has a lowercase form. -/
theorem lower_ne_nil (c : Char) : lower c ≠ [] := by
  unfold lower
  split_ifs
  · simp
  · split <;> simp

/-- No run of the mapping leads to the underscore. -/
theorem mappingRuns_avoid_underscore :
    ∀ run ∈ mappingRuns, ¬ ((run.1 : ℤ) ≤ 0x5f - run.2.2.2 ∧ 0x5f - run.2.2.2 ≤ run.2.1) := by
  decide +kernel

/-- The underscore is the character of one code point only. -/
theorem eq_of_ofNat_eq_underscore {n : ℕ} (h : Char.ofNat n = '_') : n = 0x5f := by
  by_cases hvalid : n.isValidChar
  · rw [Char.ofNat, dif_pos hvalid] at h
    exact congrArg Char.toNat h
  · rw [Char.ofNat, dif_neg hvalid] at h
    exact absurd h (by decide)

/-- Only the underscore has an underscore in its lowercase form. -/
theorem eq_underscore_of_mem_lower {c : Char} (h : '_' ∈ lower c) : c = '_' := by
  unfold lower at h
  split_ifs at h
  · exact absurd h (by decide)
  split at h
  · next first last step distance hfind =>
    have hrun := List.mem_of_find?_eq_some hfind
    have hin := List.find?_some hfind
    simp only [inRun, Bool.and_eq_true, decide_eq_true_eq] at hin
    have hcode := eq_of_ofNat_eq_underscore (List.mem_singleton.mp h).symm
    exact absurd (by dsimp only; omega) (mappingRuns_avoid_underscore _ hrun)
  · exact (List.mem_singleton.mp h).symm

/-- The first character of a lowercase form is an underscore for the underscore only. -/
theorem exists_head?_lower {c : Char} (h : c ≠ '_') : ∃ d ∈ (lower c).head?, d ≠ '_' :=
  ⟨(lower c).head (lower_ne_nil c), List.head?_eq_some_head _,
    fun he => h (eq_underscore_of_mem_lower (he ▸ List.head_mem _))⟩

/-- The last character of a lowercase form is an underscore for the underscore only. -/
theorem exists_getLast?_lower {c : Char} (h : c ≠ '_') : ∃ d ∈ (lower c).getLast?, d ≠ '_' :=
  ⟨(lower c).getLast (lower_ne_nil c), List.getLast?_eq_some_getLast _,
    fun he => h (eq_underscore_of_mem_lower (he ▸ List.getLast_mem _))⟩

/-- The character is no capital and its own lowercase form. -/
def IsSettled (c : Char) : Prop := isUpper c = false ∧ lower c = [c]

/-- Of all runs of capitals only the first is in ASCII. -/
theorem isUpper_ascii {c : Char} (hc : c.toNat < 128) :
    isUpper c = true ↔ 0x41 ≤ c.toNat ∧ c.toNat ≤ 0x5a := by
  have hruns : upperRuns = (0x41, 0x5a, 1) :: upperRuns.tail := rfl
  have hbeyond : ∀ run ∈ upperRuns.tail, 128 ≤ run.1 := by decide +kernel
  have htail : ∀ run ∈ upperRuns.tail, inRun c.toNat run.1 run.2.1 run.2.2 = false := by
    intro run hrun
    have hfirst := hbeyond run hrun
    simp only [inRun, Bool.and_eq_false_iff, decide_eq_false_iff_not]
    omega
  rw [isUpper, hruns, List.any_cons, List.any_eq_false.mpr (by simpa using htail), Bool.or_false]
  simp [inRun, Nat.mod_one]

/-- Of all runs of the mapping only the first is in ASCII. -/
theorem lower_ascii {c : Char} (hc : c.toNat < 128) :
    lower c = if 0x41 ≤ c.toNat ∧ c.toNat ≤ 0x5a then [Char.ofNat (c.toNat + 32)] else [c] := by
  have hruns : mappingRuns = (0x41, 0x5a, 1, 32) :: mappingRuns.tail := rfl
  have hbeyond : ∀ run ∈ mappingRuns.tail, 128 ≤ run.1 := by decide +kernel
  have hfirst : inRun c.toNat 0x41 0x5a 1 = decide (0x41 ≤ c.toNat ∧ c.toNat ≤ 0x5a) := by
    simp [inRun, Nat.mod_one]
  have hfind {p : ℕ × ℕ × ℕ × ℤ → Bool}
      (hp : ∀ run, p run = inRun c.toNat run.1 run.2.1 run.2.2.1) :
      mappingRuns.find? p
        = if 0x41 ≤ c.toNat ∧ c.toNat ≤ 0x5a then some (0x41, 0x5a, 1, 32) else none := by
    have htail : mappingRuns.tail.find? p = none := by
      refine List.find?_eq_none.mpr fun run hrun => ?_
      have hlarge := hbeyond run hrun
      simp only [hp, inRun, Bool.and_eq_true, decide_eq_true_eq]
      omega
    rw [hruns, List.find?_cons, hp, hfirst, htail]
    by_cases h : 0x41 ≤ c.toNat ∧ c.toNat ≤ 0x5a
    · rw [decide_eq_true h, if_pos h]
    · rw [decide_eq_false h, if_neg h]
  rw [lower, if_neg (by omega), hfind fun _ => rfl]
  by_cases h : 0x41 ≤ c.toNat ∧ c.toNat ≤ 0x5a
  · rw [if_pos h, if_pos h]
    rfl
  · rw [if_neg h, if_neg h]

/-- Characters of ASCII that are no capitals are settled. -/
theorem isSettled_ascii {c : Char} (hc : c.toNat < 128)
    (h : ¬ (0x41 ≤ c.toNat ∧ c.toNat ≤ 0x5a)) : IsSettled c := by
  refine ⟨?_, ?_⟩
  · rw [← Bool.not_eq_true, isUpper_ascii hc]
    exact h
  · rw [lower_ascii hc, if_neg h]

/-- Lowercase forms in ASCII are settled. -/
theorem isSettled_of_mem_lower {c d : Char} (hc : c.toNat < 128) (h : d ∈ lower c) :
    IsSettled d := by
  rw [lower_ascii hc] at h
  split at h
  next hcapital =>
    obtain rfl := List.mem_singleton.mp h
    have hcode : (Char.ofNat (c.toNat + 32)).toNat = c.toNat + 32 := by
      rw [Char.ofNat, dif_pos (.inl (by omega))]
      rfl
    exact isSettled_ascii (by omega) (by omega)
  next hother =>
    obtain rfl := List.mem_singleton.mp h
    exact isSettled_ascii hc hother

end Letter

namespace Snake

/-! ## §2. Names as pieces. -/

/-- A piece of a name in snake case. -/
inductive Piece where
  /-- A character of the name. -/
  | letter (c : Char)
  /-- An underscore that is put in. -/
  | separator

namespace Piece

/-- What a piece is written with. -/
def chars : Piece → List Char
  | letter c => Letter.lower c
  | separator => ['_']

/-- The character of the name that a piece stands for. -/
def letter? : Piece → Option Char
  | letter c => some c
  | separator => none

end Piece

/-- The characters that some pieces are written with, one after the other. -/
def written (ps : List Piece) : List Char := ps.flatMap Piece.chars

@[simp] theorem written_nil : written [] = [] := rfl

@[simp] theorem written_cons (p : Piece) (ps : List Piece) :
    written (p :: ps) = p.chars ++ written ps := rfl

@[simp] theorem written_append (ps qs : List Piece) :
    written (ps ++ qs) = written ps ++ written qs :=
  List.flatMap_append

/-- Every separator stands between two characters that are no underscores. -/
def AreApart (ps : List Piece) : Prop :=
  ∀ before after, ps = before ++ .separator :: after →
    (∃ c ∈ (written before).getLast?, c ≠ '_') ∧ ∃ c ∈ (written after).head?, c ≠ '_'

/-- The pieces that the characters after `previous` are turned into. -/
def pieces (previous : Option Char) : List Char → List Piece
  | [] => []
  | c :: rest =>
    let word := .letter c :: pieces (some c) rest
    if startsWord previous c rest.head? then .separator :: word else word

/-- A conversion writes its pieces. -/
theorem written_pieces (previous : Option Char) (cs : List Char) :
    written (pieces previous cs) = convert previous cs := by
  induction cs generalizing previous with
  | nil => rfl
  | cons c rest ih => simp only [pieces, convert]; split <;> simp [Piece.chars, ih]

/-- The pieces stand for the characters of the name, in order. -/
theorem filterMap_letter?_pieces (previous : Option Char) (cs : List Char) :
    (pieces previous cs).filterMap Piece.letter? = cs := by
  induction cs generalizing previous with
  | nil => rfl
  | cons c rest ih => simp only [pieces]; split <;> simp [List.filterMap_cons, Piece.letter?, ih]

/-! ## §3. Where separators go. -/

/-- No word starts at an underscore or behind one. -/
theorem ne_underscore_of_startsWord {p c : Char} {next : Option Char}
    (h : startsWord (some p) c next = true) : p ≠ '_' ∧ c ≠ '_' := by
  simp only [startsWord, Bool.and_eq_true, Bool.or_eq_true] at h
  obtain ⟨hc, hp⟩ := h
  constructor
  · rintro rfl
    have hlower : Letter.isLower '_' = false := by decide
    have hupper : Letter.isUpper '_' = false := by decide
    simp [hlower, hupper, Char.isDigit] at hp
  · rintro rfl
    exact absurd hc (by decide)

/-- A separator comes right behind one character of the name and right before another, and
neither of them is an underscore. -/
theorem exists_letters_of_separator {p : Char} {cs : List Char} {before after : List Piece}
    (h : .letter p :: pieces (some p) cs = before ++ .separator :: after) :
    ∃ before' q r after', before = before' ++ [.letter q] ∧ q ≠ '_' ∧
      after = .letter r :: after' ∧ r ≠ '_' := by
  induction cs generalizing p before with
  | nil =>
    have hmem : Piece.separator ∈ [Piece.letter p] := by
      rw [show [Piece.letter p] = before ++ .separator :: after from h]; simp
    simp at hmem
  | cons c rest ih =>
    -- the first piece is a character, so the separator is further on
    obtain _ | ⟨first, before⟩ := before
    · simp at h
    obtain ⟨rfl, htail⟩ := List.cons_eq_cons.mp h
    by_cases hword : startsWord (some p) c rest.head? = true
    · simp only [pieces, hword, if_true] at htail
      obtain ⟨hp, hc⟩ := ne_underscore_of_startsWord hword
      obtain _ | ⟨second, before⟩ := before
      · obtain ⟨-, rfl⟩ := List.cons_eq_cons.mp htail
        exact ⟨[], p, c, _, rfl, hp, rfl, hc⟩
      · obtain ⟨rfl, hrest⟩ := List.cons_eq_cons.mp htail
        obtain ⟨before', q, r, after', rfl, hq, hafter, hr⟩ := ih hrest
        exact ⟨.letter p :: .separator :: before', q, r, after', rfl, hq, hafter, hr⟩
    · simp only [pieces, hword] at htail
      obtain ⟨before', q, r, after', rfl, hq, hafter, hr⟩ := ih htail
      exact ⟨.letter p :: before', q, r, after', rfl, hq, hafter, hr⟩

/-- The separators of a whole name are apart. -/
theorem areApart_pieces (cs : List Char) : AreApart (pieces none cs) := by
  intro before after h
  obtain _ | ⟨c, rest⟩ := cs
  · simp [pieces] at h
  · have hstart : pieces none (c :: rest) = .letter c :: pieces (some c) rest := by
      simp [pieces, startsWord]
    obtain ⟨before', q, r, after', rfl, hq, rfl, hr⟩ :=
      exists_letters_of_separator (hstart.symm.trans h)
    obtain ⟨d, hd, hdq⟩ := Letter.exists_getLast?_lower hq
    obtain ⟨e, he, her⟩ := Letter.exists_head?_lower hr
    simp only [Option.mem_def] at hd he
    exact ⟨⟨d, by simp [Piece.chars, List.getLast?_append, hd], hdq⟩,
      e, by simp [Piece.chars, List.head?_append, he], her⟩

/-! ## §4. Names in ASCII. -/

/-- Every character that a name in ASCII is turned into is settled. -/
theorem isSettled_of_mem_convert {previous : Option Char} {cs : List Char}
    (h : ∀ c ∈ cs, c.toNat < 128) : ∀ d ∈ convert previous cs, Letter.IsSettled d := by
  intro d hd
  rw [← written_pieces, written, List.mem_flatMap] at hd
  obtain ⟨p, hp, hd⟩ := hd
  cases p with
  | letter c =>
    have hc : c ∈ (pieces previous cs).filterMap Piece.letter? :=
      List.mem_filterMap.mpr ⟨_, hp, rfl⟩
    rw [filterMap_letter?_pieces] at hc
    exact Letter.isSettled_of_mem_lower (h c hc) hd
  | separator =>
    rw [List.mem_singleton.mp hd]
    exact Letter.isSettled_ascii (by decide) (by decide)

/-- Settled characters are left as they are. -/
theorem convert_eq_self {previous : Option Char} {cs : List Char}
    (h : ∀ c ∈ cs, Letter.IsSettled c) : convert previous cs = cs := by
  induction cs generalizing previous with
  | nil => rfl
  | cons c rest ih =>
    obtain ⟨hupper, hlower⟩ := h c List.mem_cons_self
    have hword : startsWord previous c rest.head? = false := by
      cases previous <;> simp [startsWord, hupper]
    simp [convert, hword, hlower, ih fun d hd => h d (List.mem_cons_of_mem c hd)]

/-! ## §5. Capstone. -/

/-- A name in snake case consists of the characters of the name in lowercase and in order,
with separators that are neither first nor last nor next to another underscore.  From a name
in ASCII all capitals go, and a second conversion changes nothing. -/
theorem ofCamel_separates (name : String) :
    (∃ ps, (ofCamel name).toList = written ps ∧ ps.filterMap Piece.letter? = name.toList ∧
      AreApart ps) ∧
    ((∀ c ∈ name.toList, c.toNat < 128) →
      (∀ c ∈ (ofCamel name).toList, Letter.isUpper c = false) ∧
      ofCamel (ofCamel name) = ofCamel name) := by
  refine ⟨⟨pieces none name.toList, ?_, filterMap_letter?_pieces _ _, areApart_pieces _⟩, ?_⟩
  · rw [written_pieces, ofCamel, String.toList_ofList]
  · intro hascii
    have hsettled : ∀ c ∈ (ofCamel name).toList, Letter.IsSettled c := by
      rw [ofCamel, String.toList_ofList]
      exact isSettled_of_mem_convert hascii
    refine ⟨fun c hc => (hsettled c hc).1, ?_⟩
    rw [ofCamel, convert_eq_self hsettled, String.ofList_toList]

/-- The theorem at a name with a run of capitals and a digit. -/
theorem ofCamel_separates_acronym :
    (∀ c ∈ "HTTPRack4U".toList, c.toNat < 128) ∧
      ofCamel (ofCamel "HTTPRack4U") = ofCamel "HTTPRack4U" := by
  have hascii : ∀ c ∈ "HTTPRack4U".toList, c.toNat < 128 := by simp
  exact ⟨hascii, ((ofCamel_separates "HTTPRack4U").2 hascii).2⟩

end Snake

end SolidTree
