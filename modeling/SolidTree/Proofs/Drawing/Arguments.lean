/-
  SolidTree.Proofs.Drawing.Arguments
  ──────────────────────────────────
  **ARGUMENT TEXT IS READ BACK.**

  The text of an argument list is read as the same keys in the same order
  with the same values, however deep the lists are and whatever stands in the
  texts.  What the literal of a value has to be:

      number    — one whose nearest double is the rounded number
      integer   — one that is exactly that integer
      boolean   — the truth value
      text      — the same characters
      list      — literals of the elements in order

  A double that is no number, or infinite, has a text as well, but that is no
  number of the grammar: an argument list is read just if none of its numbers
  leaves the finite doubles when it is rounded.

  Main result:
    * `Arguments.read_back` — which argument lists are read, and as what
-/
import SolidTree.Proofs.Double.Spelling
import SolidTree.Proofs.Drawing.Reading
import SolidTree.Proofs.Grammar.Reader

namespace SolidTree

open Grammar

/-! ## §1. What literals stand for. -/

/-- The number that is written. -/
def Numeral.Parts.value (p : Numeral.Parts) : ℚ :=
  (if p.negative then -1 else 1) *
    (natural (p.whole ++ p.fraction) * 10 ^ (p.exponent - p.fraction.length))

namespace Grammar

/-- The literal stands for the value, whose numbers are rounded to `precision` decimals. -/
inductive Literal.Denotes (precision : UInt32) : Literal → Value Float → Prop where
  | number {p : Numeral.Parts} {x : Float} (h : p.toFloat = Binary64.places precision x) :
    Denotes precision (.number p) (.number x)
  | integer {p : Numeral.Parts} {n : Int64} (h : p.value = n.toInt) :
    Denotes precision (.number p) (.integer n)
  | boolean (b : Bool) : Denotes precision (.boolean b) (.boolean b)
  | text (s : String) : Denotes precision (.text s.toList) (.text s)
  | list {ls : List Literal} {vs : List (Value Float)}
    (h : List.Forall₂ (Denotes precision) ls vs) : Denotes precision (.list ls) (.list vs)

end Grammar

mutual

/-- The numbers in a value, but for its integers. -/
def Value.numbersIn {α : Type} : Value α → List α
  | .number x => [x]
  | .list items => numbersOf items
  | .integer _ | .boolean _ | .text _ => []

/-- The numbers in the values of a list. -/
def numbersOf {α : Type} : List (Value α) → List α
  | [] => []
  | v :: rest => v.numbersIn ++ numbersOf rest

end

/-- The numbers in an argument list. -/
def Arguments.numbersIn {α : Type} (a : Arguments α) : List α :=
  numbersOf (a.entries.map Prod.snd)

namespace Grammar

/-! ## §2. Words. -/

theorem number?_chars {s : Spelling} (h : s.IsProper) : number? s.chars = some s.parts := by
  have hunsigned := Spelling.unsigned?_chars h
  obtain ⟨c, rest, hwhole, hc⟩ := h.exists_digit
  have hminus : c ≠ '-' := fun heq => by simp [heq] at hc
  unfold Spelling.chars
  rw [hwhole, List.cons_append] at hunsigned ⊢
  cases hnegative : s.negative with
  | true =>
    rw [hnegative] at hunsigned
    exact hunsigned
  | false =>
    rw [hnegative] at hunsigned
    show number? (c :: _) = _
    unfold number?
    split
    next heq => exact absurd (List.cons.inj heq).1 hminus
    next => exact hunsigned

/-- A number is neither of the truth values. -/
theorem word?_chars {s : Spelling} (h : s.IsProper) : word? s.chars = some (.number s.parts) := by
  have hnumber := number?_chars h
  have hne {cs : List Char} (hcs : number? cs = none) : s.chars ≠ cs := by
    rintro rfl
    rw [hcs] at hnumber
    cases hnumber
  unfold word?
  rw [if_neg (hne (by decide)), if_neg (hne (by decide)), hnumber, Option.map_some]

/-- The text of a double is a number of the grammar just if the double is finite, and then it is
a number that is nearest to that double. -/
theorem word?_plain (x : Float) :
    ((word? (NumberStyle.plain.chars x)).isSome = true ↔ Binary64.isFinite x = true) ∧
      ∀ l, word? (NumberStyle.plain.chars x) = some l → ∃ p, l = .number p ∧ p.toFloat = x := by
  cases hx : Binary64.isFinite x with
  | true =>
    obtain ⟨s, hproper, hchars, hdouble⟩ :=
      Spelling.exists_spelling NumberStyle.plain_isFaithful hx
    rw [← hchars, word?_chars hproper]
    exact ⟨iff_of_true rfl rfl, fun l hl => ⟨s.parts, (Option.some.inj hl).symm, hdouble⟩⟩
  | false =>
    have hnone : word? (NumberStyle.plain.chars x) = none := by
      unfold Binary64.isFinite at hx
      unfold NumberStyle.chars
      split at hx
      next => cases hx
      next => cases hx
      next sign hunpack =>
        rw [hunpack]
        cases sign <;> decide
      next hunpack =>
        rw [hunpack]
        decide
    rw [hnone]
    exact ⟨iff_of_false Bool.false_ne_true Bool.false_ne_true, nofun⟩

/-- The digits of an integer are exactly that integer. -/
theorem word?_integer (n : Int) :
    ∃ p, word? (Source.integer n) = some (.number p) ∧ p.value = n := by
  have hproper := Spelling.isProper_natural (decide (n < 0)) n.natAbs
  have hchars :
      Spelling.chars ⟨decide (n < 0), Nat.toDigits 10 n.natAbs, [], none⟩ = Source.integer n := by
    by_cases hn : n < 0 <;>
      simp [Spelling.chars, Spelling.sign, Spelling.point, Spelling.letter, Source.integer, hn]
  refine ⟨_, hchars ▸ word?_chars hproper, ?_⟩
  rw [Numeral.Parts.value, Spelling.parts, List.append_nil, Spelling.natural_toDigits]
  by_cases hn : n < 0
  · have habs : (n.natAbs : ℤ) = -n := Int.ofNat_natAbs_of_nonpos hn.le
    have hrat : (n.natAbs : ℚ) = -n := by rw [← Int.cast_natCast, habs, Int.cast_neg]
    simp [hn, hrat, Spelling.power]
  · have habs : (n.natAbs : ℤ) = n := Int.natAbs_of_nonneg (not_lt.mp hn)
    have hrat : (n.natAbs : ℚ) = n := by rw [← Int.cast_natCast, habs]
    simp [hn, hrat, Spelling.power]

/-! ## §3. Values. -/

/-- What is read for some numbers is there just if all of them stay finite when they are
rounded, and then it is what was meant. -/
structure Recovers {α : Type} (precision : UInt32) (read : Option α) (numbers : List Float)
    (Means : α → Prop) : Prop where
  isSome : read.isSome = true ↔
    ∀ x ∈ numbers, Binary64.isFinite (Binary64.places precision x) = true
  means : ∀ a, read = some a → Means a

theorem Recovers.pure {α : Type} {precision : UInt32} {a : α} {Means : α → Prop} (h : Means a) :
    Recovers precision (some a) [] Means :=
  ⟨iff_of_true rfl (List.forall_mem_nil _), fun _ heq => Option.some.inj heq ▸ h⟩

theorem Recovers.map {α β : Type} {precision : UInt32} {read : Option α} {numbers : List Float}
    {Means : α → Prop} (h : Recovers precision read numbers Means) {f : α → β}
    {Means' : β → Prop} (hf : ∀ a, Means a → Means' (f a)) :
    Recovers precision (read.map f) numbers Means' := by
  refine ⟨by rw [Option.isSome_map, h.isSome], fun b hb => ?_⟩
  obtain ⟨a, ha, rfl⟩ := Option.map_eq_some_iff.mp hb
  exact hf a (h.means a ha)

/-- One more value in front of others. -/
theorem Recovers.cons {α : Type} {precision : UInt32} {first : Option α} {others : Option (List α)}
    {xs ys : List Float} {First : α → Prop} {Others : List α → Prop}
    (hfirst : Recovers precision first xs First)
    (hothers : Recovers precision others ys Others) :
    Recovers precision (do return (← first) :: (← others)) (xs ++ ys)
      fun as => ∃ a rest, as = a :: rest ∧ First a ∧ Others rest := by
  constructor
  · rw [List.forall_mem_append, ← hfirst.isSome, ← hothers.isSome]
    cases first <;> cases others <;> simp
  · intro as has
    cases first with
    | none => cases has
    | some a =>
      cases others with
      | none => cases has
      | some rest =>
        exact ⟨a, rest, (Option.some.inj has).symm, hfirst.means a rfl, hothers.means rest rfl⟩

mutual

/-- A value is recovered from its syntax tree. -/
theorem recovers_value (precision : UInt32) : (v : Value Float) →
    Recovers precision (v.datum precision).literal? v.numbersIn (·.Denotes precision v)
  | .number x => by
    obtain ⟨hfinite, hnumber⟩ := word?_plain (Binary64.places precision x)
    refine ⟨hfinite.trans ?_, fun l hl => ?_⟩
    · rw [Value.numbersIn, List.forall_mem_singleton]
    obtain ⟨p, rfl, hp⟩ := hnumber l hl
    exact .number hp
  | .integer n => by
    obtain ⟨p, hread, hp⟩ := word?_integer n.toInt
    rw [Value.datum, Datum.literal?, hread]
    exact .pure (.integer hp)
  | .boolean b => by
    have hread : word? (if b then "true" else "false").toList = some (.boolean b) := by
      cases b <;> rfl
    rw [Value.datum, Datum.literal?, hread]
    exact .pure (.boolean b)
  | .text s => .pure (.text s)
  | .list items => (recovers_values precision items).map fun _ => .list

/-- The values of a list are recovered from theirs. -/
theorem recovers_values (precision : UInt32) : (vs : List (Value Float)) →
    Recovers precision (literals? (dataOf precision vs)) (numbersOf vs)
      (List.Forall₂ (Literal.Denotes precision) · vs)
  | [] => .pure .nil
  | v :: rest => by
    obtain ⟨hsome, hmeans⟩ := (recovers_value precision v).cons (recovers_values precision rest)
    refine ⟨hsome, fun ls hls => ?_⟩
    obtain ⟨l, others, rfl, hl, hothers⟩ := hmeans ls hls
    exact .cons hl hothers

end

/-! ## §4. Argument lists. -/

/-- What is read for an argument: the same key, and a literal of the value. -/
def IsReadingOf (precision : UInt32) (read : Option (List Char) × Literal)
    (entry : Option String × Value Float) : Prop :=
  read.1 = entry.1.map String.toList ∧ read.2.Denotes precision entry.2

theorem recovers_entries (precision : UInt32) (entries : List (Option String × Value Float)) :
    Recovers precision
      ((Arguments.data precision ⟨entries⟩).mapM fun (key, d) => d.literal?.map (key, ·))
      (Arguments.numbersIn ⟨entries⟩) (List.Forall₂ (IsReadingOf precision) · entries) := by
  induction entries with
  | nil => exact .pure .nil
  | cons entry rest ih =>
    obtain ⟨key, v⟩ := entry
    have hentry : Recovers precision
        ((v.datum precision).literal?.map (key.map String.toList, ·)) v.numbersIn
        (IsReadingOf precision · (key, v)) :=
      (recovers_value precision v).map fun _ hl => ⟨rfl, hl⟩
    obtain ⟨hsome, hmeans⟩ := hentry.cons ih
    rw [Arguments.data, List.map_cons, List.mapM_cons]
    refine ⟨hsome, fun reads hreads => ?_⟩
    obtain ⟨read, others, rfl, hread, hothers⟩ := hmeans reads hreads
    exact .cons hread hothers

/-- The arguments of the text are those that were written. -/
theorem data?_text {a : Arguments Float} (hkeys : a.HasNames) (precision : UInt32) :
    data? (String.ofList (Source.arguments precision a)) = some (a.data precision) := by
  refine data?_of_tokens ?_ (tokens?_of_bracket ?_)
  · intro argument hargument key hkey
    obtain ⟨entry, hentry, rfl⟩ := List.mem_map.mp hargument
    obtain ⟨k, hk, rfl⟩ := Option.mem_map.mp hkey
    exact hkeys entry hentry k hk
  · rw [String.toList_ofList]
    exact writes_arguments hkeys _ _ ⟨')', [], rfl, rfl⟩ (lexes_mark rfl (reads_nil .between))

theorem arguments?_text {a : Arguments Float} (hkeys : a.HasNames) (precision : UInt32) :
    arguments? (String.ofList (Source.arguments precision a)) =
      (a.data precision).mapM fun (key, d) => d.literal?.map (key, ·) := by
  rw [arguments?, data?_text hkeys precision]
  rfl

end Grammar

namespace Arguments

/-- **Argument text is read back.** The text of an argument list whose keys are names is read
just if no number in it leaves the finite doubles when it is rounded. What is read then are the
same keys in the same order, each with a literal of its value. -/
theorem read_back {a : Arguments Float} (hkeys : a.HasNames) (precision : UInt32) :
    ((arguments? (String.ofList (Source.arguments precision a))).isSome = true ↔
        ∀ x ∈ a.numbersIn, Binary64.isFinite (Binary64.places precision x) = true) ∧
      ∀ reads, arguments? (String.ofList (Source.arguments precision a)) = some reads →
        List.Forall₂ (IsReadingOf precision) reads a.entries := by
  obtain ⟨hsome, hmeans⟩ := recovers_entries precision a.entries
  rw [arguments?_text hkeys precision]
  exact ⟨hsome, hmeans⟩

/-- A label with a comma, brackets and a quotation mark in it, its size, and a path. -/
def label : Arguments Float where
  entries := [
    (none, .text "a, [\"b\"]"),
    (some "size", .number 3.02865),
    (some "path", .list [.list [.integer 0, .integer (-1)], .boolean true])]

/-- The label is read back. -/
theorem read_back_label :
    label.HasNames ∧ ∃ reads,
      arguments? (String.ofList (Source.arguments 4 label)) = some reads ∧
        List.Forall₂ (IsReadingOf 4) reads label.entries := by
  have hkeys : label.HasNames := by
    unfold HasNames label
    decide
  obtain ⟨hiff, hreads⟩ := read_back hkeys 4
  have hnumbers : ∀ x ∈ label.numbersIn, Binary64.isFinite (Binary64.places 4 x) = true := by
    show ∀ x ∈ [3.02865], _
    rw [List.forall_mem_singleton]
    decide +kernel
  obtain ⟨reads, hread⟩ := Option.isSome_iff_exists.mp (hiff.mpr hnumbers)
  exact ⟨hkeys, reads, hread, hreads reads hread⟩

/-- **A finite height is written as what is no number.** It has no decimals, but is beyond the
largest double while they are cut off. -/
theorem not_read_back :
    Binary64.isFinite 1e305 = true ∧
      Source.arguments 4 ⟨[(some "h", .number 1e305)]⟩ = "h=inf".toList ∧
      arguments? (String.ofList (Source.arguments 4 ⟨[(some "h", .number 1e305)]⟩)) = none := by
  have hkeys : HasNames (⟨[(some "h", .number 1e305)]⟩ : Arguments Float) := by
    unfold HasNames
    decide
  have hinfinite : Binary64.isFinite (Binary64.places 4 1e305) = false := by decide +kernel
  -- The reader is not run: a reading would say that the rounded height is finite.
  refine ⟨by decide +kernel, by decide +kernel, Option.not_isSome_iff_eq_none.mp fun hsome => ?_⟩
  rw [arguments?_text hkeys, (recovers_entries 4 _).isSome] at hsome
  have hfinite := hsome 1e305 (List.mem_singleton.mpr rfl)
  rw [hinfinite] at hfinite
  cases hfinite

end Arguments

end SolidTree
