/-
  SolidTree.Proofs.Span.Resolving
  ───────────────────────────────
  **READINGS OF A SPAN RESOLVE TO IT.**

  A specification is resolved if every given quantity is close to the solved
  one, where the ends are compared crosswise if something descends.  An
  exact reading of a span descends just if its step does, so each of its
  quantities is compared with the one that it equals.

      s.Agrees t     — every given quantity is close to that of the span `t`
      p.PartOf s     — `p` gives some of the quantities of `s`

  Main results:
    * `resolve_of_reads` — an exact reading resolves to the span that is read
    * `resolve_readings` — so do two or more quantities of a span, from
      either end
-/
import Mathlib.Data.List.ReduceOption
import SolidTree.Proofs.Exact.Outermost
import SolidTree.Proofs.Span.Solving

namespace SolidTree

namespace SpanSpec

open Outcome

/-! ## §1. What a check accepts. -/

/-- Two rationals are close if the error is small against the larger magnitude. -/
theorem close_iff {a b : ℚ} : Scalar.close Scalar.coordinateTolerance a b = true ↔
    |a - b| ≤ 1e-9 * max (max |a| |b|) 1 := by
  have hone : (1.0 : ℚ) = 1 := by norm_num
  unfold Scalar.close Scalar.coordinateTolerance
  rw [Bool.or_eq_true, decide_eq_true_eq, beq_iff_eq, Rational.greater_eq_max,
    Rational.greater_eq_max, Rational.abs_eq, Rational.abs_eq, Rational.abs_eq, hone]
  refine or_iff_right_of_imp ?_
  rintro rfl
  rw [sub_self, abs_zero]
  exact mul_nonneg (by norm_num) (zero_le_one.trans (le_max_right _ _))

/-- The quantity that is compared with the low end: the end of a descending reading. -/
def low? (s : SpanSpec ℚ) : Option ℚ := if s.isDescending then s.finish? else s.start?

/-- The quantity that is compared with the high end. -/
def high? (s : SpanSpec ℚ) : Option ℚ := if s.isDescending then s.start? else s.finish?

/-- Each given quantity is close to that of the span; a length has no sign here. -/
structure Agrees (s : SpanSpec ℚ) (t : Span ℚ) : Prop where
  center : ∀ a, s.center? = some a → Scalar.close Scalar.coordinateTolerance a t.center = true
  distance : ∀ a, s.distance? = some a →
    Scalar.close Scalar.coordinateTolerance |a| t.distance = true
  low : ∀ a, s.low? = some a → Scalar.close Scalar.coordinateTolerance a t.start = true
  high : ∀ a, s.high? = some a → Scalar.close Scalar.coordinateTolerance a t.finish = true

theorem check_eq_ok {quantity : Quantity} {given : Option ℚ} {solved : ℚ} :
    check quantity given solved = .ok () ↔
      ∀ a, given = some a → Scalar.close Scalar.coordinateTolerance a solved = true := by
  cases given with
  | none => simp [check]
  | some a => by_cases h : Scalar.close Scalar.coordinateTolerance a solved <;> simp [check, h]

theorem validate_eq_ok {s : SpanSpec ℚ} {t : Span ℚ} : s.validate t = .ok () ↔ s.Agrees t := by
  have habs : ∀ a, s.distance?.map Scalar.abs = some a ↔ ∃ d, s.distance? = some d ∧ |d| = a := by
    intro a
    simp only [Option.map_eq_some_iff, Rational.abs_eq]
  have hends : (if s.isDescending = true then (s.finish?, s.start?) else (s.start?, s.finish?))
      = (s.low?, s.high?) := by
    unfold low? high?
    split <;> rfl
  unfold validate
  simp only [check_bind_eq_ok, hends, check_eq_ok, habs]
  constructor
  · rintro ⟨hcenter, hdistance, hlow, hhigh⟩
    exact ⟨hcenter, fun d hd => hdistance _ ⟨d, hd, rfl⟩, hlow, hhigh⟩
  · rintro ⟨hcenter, hdistance, hlow, hhigh⟩
    refine ⟨hcenter, ?_, hlow, hhigh⟩
    rintro _ ⟨d, hd, rfl⟩
    exact hdistance d hd

/-- A specification is resolved iff it is solved and agrees with that. -/
theorem resolve_eq_ok {s : SpanSpec ℚ} {t : Span ℚ} :
    s.resolve = .ok t ↔ s.solve? = some t ∧ s.Agrees t := by
  unfold resolve
  cases s.solve? with
  | none => simp
  | some solved =>
    simp only [check_bind_eq_ok, pure_eq_ok, validate_eq_ok, Except.ok.injEq, Option.some.injEq]
    constructor
    · rintro ⟨hagrees, rfl⟩
      exact ⟨rfl, hagrees⟩
    · rintro ⟨rfl, hagrees⟩
      exact ⟨hagrees, rfl⟩

/-! ## §2. Directions. -/

theorem above_eq_true {a b : Option ℚ} :
    above a b = true ↔ ∃ x y, a = some x ∧ b = some y ∧ y < x := by
  cases a <;> cases b <;> simp [above]

theorem isDescending_iff {s : SpanSpec ℚ} : s.isDescending = true ↔
    (∃ x y, s.start? = some x ∧ s.finish? = some y ∧ y < x) ∨
      (∃ x y, s.start? = some x ∧ s.center? = some y ∧ y < x) ∨
      (∃ x y, s.center? = some x ∧ s.finish? = some y ∧ y < x) ∨
      ∃ d, s.distance? = some d ∧ d < 0 := by
  unfold isDescending
  simp only [Bool.or_eq_true, above_eq_true, or_assoc, Option.some.injEq, exists_and_left,
    exists_eq_left']

variable {s : SpanSpec ℚ} {c k : ℚ}

/-- An exact reading that descends has a step down. -/
theorem step_neg (h : s.Reads c k 0) (hdescends : s.isDescending = true) : k < 0 := by
  rcases isDescending_iff.mp hdescends with ⟨x, y, hx, hy, hlt⟩ | ⟨x, y, hx, hy, hlt⟩ |
    ⟨x, y, hx, hy, hlt⟩ | ⟨d, hd, hlt⟩
  · linarith [h.start_eq hx, h.finish_eq hy]
  · linarith [h.start_eq hx, h.center_eq hy]
  · linarith [h.center_eq hx, h.finish_eq hy]
  · linarith [h.distance_eq hd]

/-- An exact reading of an end and something else has no step down unless it descends. -/
theorem step_nonneg (h : s.Reads c k 0) (hcount : 2 ≤ s.count) {a : ℚ}
    (hend : s.start? = some a ∨ s.finish? = some a) (hascends : ¬ s.isDescending = true) :
    0 ≤ k := by
  by_contra hk
  refine hascends (isDescending_iff.mpr ?_)
  match hs : s.start?, hc : s.center?, hf : s.finish?, hd : s.distance? with
  | some x, _, some y, _ =>
    exact .inl ⟨x, y, rfl, rfl, by linarith [h.start_eq hs, h.finish_eq hf]⟩
  | some x, some y, _, _ =>
    exact .inr (.inl ⟨x, y, rfl, rfl, by linarith [h.start_eq hs, h.center_eq hc]⟩)
  | _, some x, some y, _ =>
    exact .inr (.inr (.inl ⟨x, y, rfl, rfl, by linarith [h.center_eq hc, h.finish_eq hf]⟩))
  | _, _, _, some d =>
    exact .inr (.inr (.inr ⟨d, rfl, by linarith [h.distance_eq hd]⟩))
  | some _, none, none, none | none, none, some _, none =>
    simp [count, hs, hc, hf, hd] at hcount
  | none, _, none, none => simp [hs, hf] at hend

/-- **An exact reading resolves to the span that is read.** -/
theorem resolve_of_reads (h : s.Reads c k 0) (hcount : 2 ≤ s.count) :
    s.resolve = .ok (.around c |k|) := by
  have hsolve : s.solve? = some (.around c |k|) := by
    obtain ⟨c', k', hsolve, hc, hk⟩ := solve?_of_reads h hcount
    rw [mul_zero, abs_nonpos_iff, sub_eq_zero] at hc hk
    rw [hsolve, hc, hk]
  have hclose : ∀ {a b : ℚ}, a = b → Scalar.close Scalar.coordinateTolerance a b = true := by
    intro a b hab
    unfold Scalar.close
    rw [hab, beq_self_eq_true, Bool.true_or]
  refine resolve_eq_ok.mpr ⟨hsolve, ⟨?_, ?_, ?_, ?_⟩⟩
  · intro a ha
    exact hclose (h.center_eq ha)
  · intro a ha
    refine hclose ?_
    rw [h.distance_eq ha, abs_mul, abs_two]
    rfl
  · intro a ha
    refine hclose ?_
    unfold low? at ha
    split at ha
    next hdescends =>
      have hk := step_neg h hdescends
      show a = c - |k|
      rw [h.finish_eq ha, abs_of_neg hk, sub_neg_eq_add]
    next hascends =>
      have hk := step_nonneg h hcount (.inl ha) hascends
      show a = c - |k|
      rw [h.start_eq ha, abs_of_nonneg hk]
  · intro a ha
    refine hclose ?_
    unfold high? at ha
    split at ha
    next hdescends =>
      have hk := step_neg h hdescends
      show a = c + |k|
      rw [h.start_eq ha, abs_of_neg hk, sub_eq_add_neg]
    next hascends =>
      have hk := step_nonneg h hcount (.inr ha) hascends
      show a = c + |k|
      rw [h.finish_eq ha, abs_of_nonneg hk]

/-- Quantities that agree exactly give the length that is given. -/
theorem Reads.distance_solved {s : SpanSpec ℚ} {c k d : ℚ} (h : s.Reads c k 0)
    (hd : s.distance? = some d) {t : Span ℚ} (ht : s.resolve = .ok t) : t.distance = |d| := by
  by_cases hcount : 2 ≤ s.count
  · rw [resolve_of_reads h hcount] at ht
    cases ht
    rw [h.distance_eq hd, abs_mul, abs_two]
    rfl
  · -- A lone length is that of a span around zero.
    have hsolve := (resolve_eq_ok.mp ht).1
    obtain ⟨start?, center?, finish?, distance?⟩ := s
    cases hd
    match start?, center?, finish? with
    | none, none, none =>
      obtain rfl := Option.some.inj hsolve
      exact Rational.abs_eq d
    | some _, _, _ | none, some _, _ | none, none, some _ =>
      simp [count] at hcount

end SpanSpec

/-! ## §3. The two readings of a span. -/

namespace Span

/-- The span between two ends. -/
def ofEnds (low high : ℚ) : Span ℚ := ⟨low, (low + high) / 2, high, high - low⟩

/-- The quantities of a span, from its low end to its high one. -/
def ascending (t : Span ℚ) : SpanSpec ℚ :=
  ⟨some t.start, some t.center, some t.finish, some t.distance⟩

/-- The quantities of a span, from its high end to its low one. -/
def descending (t : Span ℚ) : SpanSpec ℚ :=
  ⟨some t.finish, some t.center, some t.start, some (-t.distance)⟩

theorem around_eq_ofEnds {low high k : ℚ} (h : |k| = (high - low) / 2) :
    around ((low + high) / 2) |k| = ofEnds low high := by
  unfold around ofEnds
  rw [h]
  congr 1 <;> ring

theorem reads_ascending (low high : ℚ) :
    (ofEnds low high).ascending.Reads ((low + high) / 2) ((high - low) / 2) 0 := by
  constructor <;>
  · rintro _ ⟨⟩
    unfold ofEnds
    rw [abs_nonpos_iff]
    ring

theorem reads_descending (low high : ℚ) :
    (ofEnds low high).descending.Reads ((low + high) / 2) ((low - high) / 2) 0 := by
  constructor <;>
  · rintro _ ⟨⟩
    unfold ofEnds
    rw [abs_nonpos_iff]
    ring

end Span

namespace SpanSpec

/-- All that is given is given alike in the other one. -/
structure PartOf (p s : SpanSpec ℚ) : Prop where
  start : ∀ a, p.start? = some a → s.start? = some a
  center : ∀ a, p.center? = some a → s.center? = some a
  finish : ∀ a, p.finish? = some a → s.finish? = some a
  distance : ∀ a, p.distance? = some a → s.distance? = some a

theorem PartOf.reads {p s : SpanSpec ℚ} {c k ε : ℚ} (hp : p.PartOf s) (h : s.Reads c k ε) :
    p.Reads c k ε where
  start a ha := h.start a (hp.start a ha)
  center a ha := h.center a (hp.center a ha)
  finish a ha := h.finish a (hp.finish a ha)
  distance a ha := h.distance a (hp.distance a ha)

/-- Two quantities are always an exact reading of some span. -/
theorem exists_reads {s : SpanSpec ℚ} (hcount : s.count = 2) : ∃ c k, s.Reads c k 0 := by
  obtain ⟨start?, center?, finish?, distance?⟩ := s
  match start?, center?, finish?, distance? with
  | some a, some c, none, none =>
    refine ⟨c, c - a, ?_, ?_, ?_, ?_⟩ <;> simp
  | some a, none, some b, none =>
    refine ⟨(a + b) / 2, (b - a) / 2, ?_, ?_, ?_, ?_⟩ <;> simp
    all_goals ring
  | some a, none, none, some d =>
    refine ⟨a + d / 2, d / 2, ?_, ?_, ?_, ?_⟩ <;> simp
    ring
  | none, some c, some b, none =>
    refine ⟨c, b - c, ?_, ?_, ?_, ?_⟩ <;> simp
  | none, some c, none, some d =>
    refine ⟨c, d / 2, ?_, ?_, ?_, ?_⟩ <;> simp
    ring
  | none, none, some b, some d =>
    refine ⟨b - d / 2, d / 2, ?_, ?_, ?_, ?_⟩ <;> simp
    ring
  | none, none, none, none | some _, none, none, none | none, some _, none, none
  | none, none, some _, none | none, none, none, some _ | some _, some _, some _, _
  | some _, some _, none, some _ | some _, none, some _, some _ | none, some _, some _, some _ =>
    -- Fewer than two quantities, or more.
    simp [count] at hcount

/-- **Every reading of a span resolves to that span.** Of the quantities of a span, from the low
end to the high one or from the high end to the low one, any two or more give all four; and
since any two quantities are those of some span, two are never rejected. -/
theorem resolve_readings :
    (∀ low high : ℚ, low ≤ high → ∀ s : SpanSpec ℚ, 2 ≤ s.count →
      s.PartOf (Span.ofEnds low high).ascending ∨ s.PartOf (Span.ofEnds low high).descending →
        s.resolve = .ok (Span.ofEnds low high)) ∧
      ∀ s : SpanSpec ℚ, s.count = 2 → ∃ t, s.resolve = .ok t := by
  constructor
  · intro low high h s hcount hpart
    rcases hpart with hpart | hpart
    · rw [resolve_of_reads (hpart.reads (Span.reads_ascending low high)) hcount]
      rw [Span.around_eq_ofEnds (abs_of_nonneg (by linarith))]
    · rw [resolve_of_reads (hpart.reads (Span.reads_descending low high)) hcount]
      rw [Span.around_eq_ofEnds (by rw [abs_of_nonpos (by linarith)]; ring)]
  · intro s hcount
    obtain ⟨c, k, hreads⟩ := exists_reads hcount
    exact ⟨_, resolve_of_reads hreads hcount.ge⟩

/-! Three quantities of a span of nine, from its high end. -/

/-- Both ends of a span and the length that leads from one to the other. -/
def downwards : SpanSpec ℚ where
  start? := some (11 / 2)
  finish? := some (-7 / 2)
  distance? := some (-9)

theorem resolve_readings_downwards :
    (-7 / 2 : ℚ) ≤ 11 / 2 ∧ 2 ≤ downwards.count ∧
      downwards.PartOf (Span.ofEnds (-7 / 2) (11 / 2)).descending ∧
      downwards.resolve = .ok ⟨-7 / 2, 1, 11 / 2, 9⟩ := by
  have hle : (-7 / 2 : ℚ) ≤ 11 / 2 := by norm_num
  have hcount : 2 ≤ downwards.count := by decide
  have hpart : downwards.PartOf (Span.ofEnds (-7 / 2) (11 / 2)).descending := by
    constructor <;> rintro _ ⟨⟩ <;> decide +kernel
  have hspan : Span.ofEnds (-7 / 2) (11 / 2) = ⟨-7 / 2, 1, 11 / 2, 9⟩ := by decide +kernel
  have hresolve := resolve_readings.1 (-7 / 2) (11 / 2) hle downwards hcount (.inr hpart)
  rw [hspan] at hresolve
  exact ⟨hle, hcount, hpart, hresolve⟩

end SpanSpec

end SolidTree
