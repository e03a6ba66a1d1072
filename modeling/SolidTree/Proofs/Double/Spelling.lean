/-
  SolidTree.Proofs.Double.Spelling
  ────────────────────────────────
  **DOUBLES WRITTEN AND READ BACK.**

  A number is spelled with a sign, digits, a fraction and an exponent, where
  all but the digits may be missing.  Every finite double is spelled so in
  source text and in serialized trees, and its spelling is read as that very
  double:

      float?_chars     — a spelling is read as the double of its parts
      exists_spelling  — a finite double has a spelling, and is the double of it
-/
import SolidTree.Number.Numeral
import SolidTree.Proofs.Double.Scientific
import SolidTree.Proofs.Double.Shortest

namespace SolidTree

open Float.Model.UnpackedFloat (Sign)

/-! ## §1. Spellings. -/

/-- A number as it is spelled. -/
structure Spelling where
  negative : Bool
  whole : List Char
  /-- The digits behind the point; there is no point if there are none. -/
  fraction : List Char
  /-- The exponent, if there is one: whether it is negative, and its digits. -/
  exponent : Option (Bool × List Char)

namespace Spelling

/-- The fraction with its point. -/
def point : List Char → List Char
  | [] => []
  | digits => '.' :: digits

/-- The exponent with its letter and its sign. -/
def letter : Option (Bool × List Char) → List Char
  | none => []
  | some (negative, digits) => 'e' :: (if negative then '-' else '+') :: digits

/-- The sign, if it is shown. -/
def sign (negative : Bool) : List Char := if negative then ['-'] else []

/-- The characters of a number. -/
def chars (s : Spelling) : List Char :=
  sign s.negative ++ (s.whole ++ (point s.fraction ++ letter s.exponent))

/-- The value of an exponent. -/
def power : Option (Bool × List Char) → ℤ
  | none => 0
  | some (negative, digits) =>
    if negative then -(Numeral.natural digits : ℤ) else Numeral.natural digits

/-- The parts of a number that its double is made of. -/
def parts (s : Spelling) : Numeral.Parts := ⟨s.negative, s.whole, s.fraction, power s.exponent⟩

/-- All characters are digits. -/
def AreDigits (cs : List Char) : Prop := ∀ c ∈ cs, c.isDigit = true

/-- The number is spelled with digits, at least one of them in front of the point and behind
the letter, and does not start with a zero unless that is the only digit in front. -/
structure IsProper (s : Spelling) : Prop where
  whole : AreDigits s.whole
  first : s.whole = ['0'] ∨ ∃ c rest, s.whole = c :: rest ∧ c ≠ '0'
  fraction : AreDigits s.fraction
  exponent : ∀ p ∈ s.exponent, p.2 ≠ [] ∧ AreDigits p.2

/-! ## §2. Digits. -/

/-- No digit follows. -/
def NoDigit (cs : List Char) : Prop := ∀ c rest, cs = c :: rest → c.isDigit = false

theorem noDigit_nil : NoDigit [] := nofun

theorem noDigit_cons {c : Char} (h : c.isDigit = false) (rest : List Char) : NoDigit (c :: rest) := by
  rintro _ _ ⟨⟩
  exact h

/-- The digits at the start are those in front of what is no digit. -/
theorem span_digits {digits rest : List Char} (hdigits : AreDigits digits) (hrest : NoDigit rest) :
    (digits ++ rest).takeWhile Char.isDigit = digits ∧
      (digits ++ rest).dropWhile Char.isDigit = rest := by
  rw [List.takeWhile_append_of_pos hdigits, List.dropWhile_append_of_pos hdigits]
  cases rest with
  | nil => exact ⟨List.append_nil digits, rfl⟩
  | cons c rest =>
    have hc := hrest c rest rfl
    rw [List.takeWhile_cons_of_neg (by simp [hc]), List.dropWhile_cons_of_neg (by simp [hc])]
    exact ⟨List.append_nil digits, rfl⟩

theorem all_isDigit {cs : List Char} (h : AreDigits cs) : cs.all Char.isDigit = true :=
  List.all_eq_true.mpr h

theorem areDigits_toDigits (n : ℕ) : AreDigits (Nat.toDigits 10 n) := fun _ hc =>
  Nat.isDigit_of_mem_toDigits (by decide) (by decide) hc

theorem areDigits_zeros (n : ℕ) : AreDigits (List.replicate n '0') := by
  intro c hc
  rw [List.eq_of_mem_replicate hc]
  rfl

theorem AreDigits.append {cs ds : List Char} (hc : AreDigits cs) (hd : AreDigits ds) :
    AreDigits (cs ++ ds) := fun c h => (List.mem_append.mp h).elim (hc c) (hd c)

/-- A number does not start with a zero unless it is zero. -/
theorem toDigits_head {n : ℕ} (h : 0 < n) : ∃ c rest, Nat.toDigits 10 n = c :: rest ∧ c ≠ '0' := by
  induction n using Nat.strong_induction_on with
  | h n ih =>
    by_cases hlt : n < 10
    · refine ⟨n.digitChar, [], Nat.toDigits_of_lt_base hlt, fun hzero => ?_⟩
      have hdigit := Nat.toNat_digitChar_sub_48_of_lt_ten hlt
      rw [hzero] at hdigit
      exact h.ne hdigit
    · obtain ⟨c, rest, hc, hne⟩ := ih (n / 10) (by omega) (by omega)
      exact ⟨c, rest ++ [Nat.digitChar (n % 10)],
        by rw [Nat.toDigits_of_base_le (by decide) (by omega), hc, List.cons_append], hne⟩

/-! ## §3. Reading. -/

theorem noDigit_letter (e : Option (Bool × List Char)) : NoDigit (letter e) := by
  cases e with
  | none => exact noDigit_nil
  | some p => exact noDigit_cons rfl _

theorem noDigit_point (fraction : List Char) (e : Option (Bool × List Char)) :
    NoDigit (point fraction ++ letter e) := by
  cases fraction with
  | nil => exact noDigit_letter e
  | cons c rest => exact noDigit_cons rfl _

theorem exponent?_digits {negative : Bool} {digits : List Char} (hne : digits ≠ [])
    (hdigits : AreDigits digits) :
    Numeral.exponent? ((if negative then '-' else '+') :: digits)
      = some (power (some (negative, digits))) := by
  cases digits with
  | nil => exact absurd rfl hne
  | cons c rest =>
    have hall := all_isDigit hdigits
    cases negative <;> simp [Numeral.exponent?, hall, power]

theorem IsProper.whole_ne_nil {s : Spelling} (h : s.IsProper) : s.whole ≠ [] := by
  rcases h.first with hzero | ⟨c, rest, hc, -⟩
  · rw [hzero]
    exact List.cons_ne_nil _ _
  · rw [hc]
    exact List.cons_ne_nil _ _

theorem IsProper.exists_digit {s : Spelling} (h : s.IsProper) :
    ∃ c rest, s.whole = c :: rest ∧ c.isDigit = true := by
  obtain ⟨c, rest, hwhole⟩ := List.exists_cons_of_ne_nil h.whole_ne_nil
  exact ⟨c, rest, hwhole, h.whole c (hwhole ▸ List.mem_cons_self ..)⟩

/-- What is read of a number without its sign. -/
theorem unsigned?_chars {s : Spelling} (h : s.IsProper) :
    Numeral.unsigned? s.negative (s.whole ++ (point s.fraction ++ letter s.exponent))
      = some s.parts := by
  obtain ⟨htake, hdrop⟩ := span_digits h.whole (noDigit_point s.fraction s.exponent)
  obtain ⟨negative, whole, fraction, exponent⟩ := s
  have hwhole : whole.isEmpty = false := by simpa using h.whole_ne_nil
  have hexponent := h.exponent
  have hspan := span_digits h.fraction (noDigit_letter exponent)
  simp only [Numeral.unsigned?, htake, hdrop, hwhole, Bool.false_and, Bool.false_eq_true, if_false]
  cases fraction with
  | nil =>
    cases exponent with
    | none => rfl
    | some p =>
      obtain ⟨hne, hdigits⟩ := hexponent p rfl
      simp [point, letter, exponent?_digits hne hdigits, parts]
  | cons c rest =>
    simp only [point, List.cons_append] at hspan ⊢
    simp only [hspan.1, hspan.2]
    cases exponent with
    | none => rfl
    | some p =>
      obtain ⟨hne, hdigits⟩ := hexponent p rfl
      simp [letter, exponent?_digits hne hdigits, parts]

/-- What starts with a digit is no word. -/
theorem word?_digit {c : Char} (h : c.isDigit = true) (rest : List Char) :
    Numeral.word? (c :: rest) = none := by
  have hrange : 48 ≤ c.val ∧ c.val ≤ 57 := by simpa [Char.isDigit] using h
  have hlower : c.toLower = c := by
    unfold Char.toLower
    refine dif_neg fun hupper => ?_
    exact absurd (UInt32.le_trans hupper.1 hrange.2) (by decide)
  have hstart {word : List Char} {d : Char} {ds : List Char} (hword : word = d :: ds)
      (hd : d.isDigit = false) : String.ofList (c :: rest.map Char.toLower) ≠ String.ofList word := by
    intro heq
    obtain ⟨rfl, -⟩ := List.cons.inj ((String.ofList_injective heq).trans hword)
    cases h.symm.trans hd
  unfold Numeral.word?
  rw [List.map_cons, hlower]
  split
  next hword => exact absurd hword (hstart rfl rfl)
  next hword => exact absurd hword (hstart rfl rfl)
  next hword => exact absurd hword (hstart rfl rfl)
  next => rfl

/-- A spelling is read as the double of its parts. -/
theorem float?_chars {s : Spelling} (h : s.IsProper) :
    Numeral.float? (String.ofList s.chars) = some s.parts.toFloat := by
  have hunsigned := unsigned?_chars h
  obtain ⟨c, rest, hwhole, hc⟩ := h.exists_digit
  have hword := word?_digit hc (rest ++ (point s.fraction ++ letter s.exponent))
  unfold Numeral.float?
  rw [String.toList_ofList, chars]
  rw [hwhole, List.cons_append] at hunsigned ⊢
  cases hnegative : s.negative with
  | true =>
    rw [hnegative] at hunsigned
    simp [sign, hword, hunsigned]
  | false =>
    rw [hnegative] at hunsigned
    have hminus : c ≠ '-' := fun heq => by simp [heq] at hc
    have hplus : c ≠ '+' := fun heq => by simp [heq] at hc
    simp [sign, hword, hunsigned, hminus, hplus]

/-! ## §4. The double of a spelling. -/

theorem natural_toDigits (n : ℕ) : Numeral.natural (Nat.toDigits 10 n) = n :=
  Nat.ofDigitChars_ten_toDigits

theorem natural_append (cs ds : List Char) :
    Numeral.natural (cs ++ ds) = 10 ^ ds.length * Numeral.natural cs + Numeral.natural ds :=
  (Nat.ofDigitChars_append 0).trans Nat.ofDigitChars_eq_ofDigitChars_zero

theorem natural_zeros (n : ℕ) : Numeral.natural (List.replicate n '0') = 0 :=
  Nat.ofDigitChars_replicate_zero

/-- The magnitude that is spelled. -/
def value (s : Spelling) : ℚ :=
  Numeral.natural (s.whole ++ s.fraction) * 10 ^ (power s.exponent - s.fraction.length)

theorem toFloat_of_magnitude {s : Spelling} {magnitude : Float}
    (h : Float.ofScientific (Numeral.natural (s.whole ++ s.fraction))
      (power s.exponent - s.fraction.length < 0) (power s.exponent - s.fraction.length).natAbs
        = magnitude) :
    s.parts.toFloat = if s.negative then -magnitude else magnitude := by
  subst h
  rfl

/-- A spelling is of the double whose rounding interval its value lies in. -/
theorem toFloat_parts {s : Spelling} {m : ℕ} {e : ℤ} (hm : Binary64.IsCanonical m e)
    (hvalue : 0 < s.value) (hround : Binary64.RoundsTo s.value m e) :
    s.parts.toFloat = .ofModel (Float.Model.pack
      (.finite (if s.negative then .negative else .positive) m e hm.pos)) := by
  have hpos : 0 < Numeral.natural (s.whole ++ s.fraction) := by
    refine Nat.pos_of_ne_zero fun hzero => ?_
    rw [value, hzero, Nat.cast_zero, zero_mul] at hvalue
    exact hvalue.false
  rw [toFloat_of_magnitude (Binary64.ofScientific_eq hpos hm hround)]
  cases s.negative with
  | true =>
    show Float.ofModel (Float.Model.pack (Float.Model.unpack (Float.Model.pack _)).neg) = _
    rw [Binary64.unpack_pack hm]
    rfl
  | false => rfl

/-! ## §5. Writing. -/

theorem point_of_ne_nil {digits : List Char} (h : digits ≠ []) : point digits = '.' :: digits := by
  cases digits with
  | nil => exact absurd rfl h
  | cons c rest => rfl

end Spelling

/-- The sign of a zero is shown, and whole numbers end behind their digits, or behind a point
and one zero more. -/
structure NumberStyle.IsFaithful (style : NumberStyle) : Prop where
  signedZero : style.signedZero = true
  whole : ∃ zeros ≤ 1, style.whole.toList = Spelling.point (List.replicate zeros '0')

theorem NumberStyle.plain_isFaithful : NumberStyle.plain.IsFaithful := ⟨rfl, 0, zero_le_one, rfl⟩

theorem NumberStyle.lossless_isFaithful : NumberStyle.lossless.IsFaithful := ⟨rfl, 1, le_rfl, rfl⟩

namespace Spelling

/-- Digits of a number with a point between or beside them. -/
theorem exists_placePoint {n : ℕ} (hn : 0 < n) (point : ℤ) {whole : String} {zeros : ℕ}
    (htail : whole.toList = Spelling.point (List.replicate zeros '0')) :
    ∃ s : Spelling, s.IsProper ∧ s.negative = false ∧
      s.chars = NumberStyle.placePoint (Nat.toDigits 10 n) point whole ∧
        s.value = n * 10 ^ (point - (Nat.toDigits 10 n).length) := by
  obtain ⟨c, rest, hdigits, hc⟩ := toDigits_head hn
  have hall := areDigits_toDigits n
  have hnatural := natural_toDigits n
  generalize Nat.toDigits 10 n = digits at hdigits hall hnatural ⊢
  have hne : digits ≠ [] := hdigits ▸ List.cons_ne_nil c rest
  unfold NumberStyle.placePoint
  split_ifs with hbehind hwhole
  · refine ⟨⟨false, ['0'], List.replicate (-point).toNat '0' ++ digits, none⟩,
      ⟨areDigits_zeros 1, .inl rfl, (areDigits_zeros _).append hall, nofun⟩, rfl, ?_, ?_⟩
    · have hpoint : Spelling.point (List.replicate (-point).toNat '0' ++ digits)
          = '.' :: (List.replicate (-point).toNat '0' ++ digits) :=
        point_of_ne_nil (by simp [hne])
      simp [chars, sign, letter, hpoint]
    · simp only [value, power, List.singleton_append, ← List.replicate_succ, ← List.append_assoc]
      rw [natural_append, natural_zeros, hnatural, List.length_append, List.length_replicate,
        Nat.mul_zero, Nat.zero_add]
      congr 2
      omega
  · refine ⟨⟨false, digits ++ List.replicate (point.toNat - digits.length) '0',
      List.replicate zeros '0', none⟩,
      ⟨hall.append (areDigits_zeros _), .inr ⟨c, rest ++ _, by rw [hdigits]; rfl, hc⟩,
        areDigits_zeros zeros, nofun⟩, rfl, ?_, ?_⟩
    · simp [chars, sign, letter, htail]
    · simp only [value, power, List.append_assoc, List.replicate_append_replicate]
      rw [natural_append, natural_zeros, hnatural, List.length_replicate, List.length_replicate]
      push_cast
      rw [mul_comm (10 ^ _ : ℚ), add_zero, mul_assoc, ← zpow_natCast, ← zpow_add₀ (by norm_num)]
      congr 2
      omega
  · refine ⟨⟨false, digits.take point.toNat, digits.drop point.toNat, none⟩,
      ⟨fun d hd => hall d (List.mem_of_mem_take hd), .inr ⟨c, rest.take (point.toNat - 1), ?_, hc⟩,
        fun d hd => hall d (List.mem_of_mem_drop hd), nofun⟩, rfl, ?_, ?_⟩
    · rw [hdigits, show point.toNat = point.toNat - 1 + 1 by omega]
      rfl
    · have hpoint : Spelling.point (digits.drop point.toNat) = '.' :: digits.drop point.toNat :=
        point_of_ne_nil (by simp; omega)
      simp [chars, sign, letter, hpoint]
    · simp only [value, power, List.take_append_drop, hnatural, List.length_drop]
      congr 2
      omega

/-- Digits of a number with a point behind the first one, and an exponent. -/
theorem exists_placeExponent {n : ℕ} (hn : 0 < n) (exponent : ℤ) :
    ∃ s : Spelling, s.IsProper ∧ s.negative = false ∧
      s.chars = NumberStyle.placeExponent (Nat.toDigits 10 n) exponent ∧
        s.value = n * 10 ^ (exponent + 1 - (Nat.toDigits 10 n).length) := by
  obtain ⟨c, rest, hdigits, hc⟩ := toDigits_head hn
  have hall := areDigits_toDigits n
  have hnatural := natural_toDigits n
  generalize Nat.toDigits 10 n = digits at hdigits hall hnatural ⊢
  subst hdigits
  refine ⟨⟨false, [c], rest, some (exponent < 0, Nat.toDigits 10 exponent.natAbs)⟩,
    ⟨?_, .inr ⟨c, [], rfl, hc⟩, ?_, ?_⟩, rfl, ?_, ?_⟩
  · exact fun d hd => hall d (List.mem_cons.mpr (.inl (List.mem_singleton.mp hd)))
  · exact fun d hd => hall d (List.mem_cons_of_mem c hd)
  · rintro _ ⟨⟩
    exact ⟨Nat.toDigits_ne_nil, areDigits_toDigits _⟩
  · cases rest <;> simp [chars, sign, letter, Spelling.point, NumberStyle.placeExponent]
  · simp only [value, power, List.singleton_append, hnatural, natural_toDigits, List.length_cons]
    congr 2
    split_ifs with hneg
    · simp at hneg
      omega
    · simp at hneg
      omega

/-- Every decimal but zero has a spelling. -/
theorem exists_decimal {style : NumberStyle} (hstyle : style.IsFaithful) {d : Decimal}
    (h : 0 < d.significand) :
    ∃ s : Spelling, s.IsProper ∧ s.negative = false ∧
      s.chars = style.decimal d ∧ s.value = d.significand * 10 ^ d.exponent := by
  obtain ⟨-, zeros, -, htail⟩ := hstyle
  unfold NumberStyle.decimal
  simp only []
  split_ifs
  · obtain ⟨s, hproper, hpositive, hchars, hvalue⟩ :=
      exists_placePoint h (d.exponent + (Nat.toDigits 10 d.significand).length) htail
    exact ⟨s, hproper, hpositive, hchars, by rw [hvalue, add_sub_cancel_right]⟩
  · obtain ⟨s, hproper, hpositive, hchars, hvalue⟩ :=
      exists_placeExponent h (d.exponent + (Nat.toDigits 10 d.significand).length - 1)
    exact ⟨s, hproper, hpositive, hchars, by
      rw [hvalue, sub_add_cancel, add_sub_cancel_right]⟩

theorem toFloat_zero (negative : Bool) {zeros : ℕ} (h : zeros ≤ 1) :
    (parts ⟨negative, ['0'], List.replicate zeros '0', none⟩).toFloat
      = .ofModel (Float.Model.pack (.zero (if negative then .negative else .positive))) := by
  interval_cases zeros <;> cases negative <;> decide +kernel

/-- **Every finite double has a spelling, and is the double of it.** -/
theorem exists_spelling {style : NumberStyle} (hstyle : style.IsFaithful) {x : Float}
    (h : Binary64.isFinite x = true) :
    ∃ s : Spelling, s.IsProper ∧ s.chars = style.chars x ∧ s.parts.toFloat = x := by
  have hsign (s : Sign) : (if s == .negative then Sign.negative else Sign.positive) = s := by
    cases s <;> rfl
  unfold Binary64.isFinite at h
  unfold NumberStyle.chars
  split at h
  next sign m e hpos hx =>
    have hm := Binary64.isCanonical_of_unpack hx
    obtain ⟨hsignificand, hround⟩ := RoundingInterval.shortest_spec hm style.tie
    obtain ⟨s, hproper, hpositive, hchars, hvalue⟩ := exists_decimal hstyle hsignificand
    refine ⟨{ s with negative := sign == .negative }, ⟨hproper.whole, hproper.first,
      hproper.fraction, hproper.exponent⟩, ?_, ?_⟩
    · rw [hx]
      show _ = if sign == .negative then '-' :: style.decimal _ else style.decimal _
      rw [← hchars, chars, chars, hpositive]
      cases sign <;> rfl
    · have hdouble := toFloat_parts (s := { s with negative := sign == .negative }) hm
        (hvalue ▸ mul_pos (Nat.cast_pos.mpr hsignificand) (zpow_pos (by norm_num) _))
        (hvalue ▸ hround)
      rw [hdouble, hsign, ← hx, Binary64.pack_unpack]
  next sign hx =>
    obtain ⟨hsigned, zeros, hzeros, htail⟩ := hstyle
    refine ⟨⟨sign == .negative, ['0'], List.replicate zeros '0', none⟩,
      ⟨areDigits_zeros 1, .inl rfl, areDigits_zeros zeros, nofun⟩, ?_, ?_⟩
    · have hzero : NumberStyle.placePoint ['0'] 1 style.whole
          = '0' :: point (List.replicate zeros '0') := by
        rw [← htail]
        rfl
      simp only [hx, hzero, hsigned, Bool.and_true, chars, letter, List.append_nil]
      cases sign <;> rfl
    · rw [toFloat_zero _ hzeros, hsign, ← hx, Binary64.pack_unpack]
  next => cases h
  next => cases h

/-- Without a fraction and an exponent, digits are properly those of a natural number. -/
theorem isProper_natural (negative : Bool) (n : ℕ) :
    IsProper ⟨negative, Nat.toDigits 10 n, [], none⟩ := by
  refine ⟨areDigits_toDigits n, ?_, nofun, nofun⟩
  rcases Nat.eq_zero_or_pos n with rfl | hn
  · exact .inl (Nat.toDigits_zero 10)
  · exact .inr (toDigits_head hn)

/-- A natural number is spelled by its digits. -/
theorem exists_natural (n : ℕ) : ∃ s : Spelling, s.IsProper ∧ s.chars = Nat.toDigits 10 n :=
  ⟨_, isProper_natural false n, by simp [chars, sign, point, letter]⟩

end Spelling

/-- A natural number is read back from its digits. -/
theorem Numeral.natural?_toDigits {n limit : ℕ} (h : n < limit) :
    Numeral.natural? limit (String.ofList (Nat.toDigits 10 n)) = some n := by
  have hall := Spelling.all_isDigit (Spelling.areDigits_toDigits n)
  have hnatural := Spelling.natural_toDigits n
  obtain ⟨c, rest, hdigits⟩ := List.exists_cons_of_ne_nil (Nat.toDigits_ne_nil (n := n) (b := 10))
  rw [hdigits] at hall hnatural ⊢
  have hplus : c ≠ '+' := fun heq => by simp [heq] at hall
  simp only [Numeral.natural?, String.toList_ofList]
  split
  next heq => exact absurd (List.cons.inj heq).1 hplus
  next => simp [hall, hnatural, h]

/-- **A finite double is read back from its text.** -/
theorem Numeral.float?_text {x : Float} (h : Binary64.isFinite x = true) :
    Numeral.float? (NumberStyle.lossless.text x) = some x := by
  obtain ⟨s, hproper, hchars, hdouble⟩ := Spelling.exists_spelling NumberStyle.lossless_isFaithful h
  rw [NumberStyle.text, ← hchars, Spelling.float?_chars hproper, hdouble]

end SolidTree
