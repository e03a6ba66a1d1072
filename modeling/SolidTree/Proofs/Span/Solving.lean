/-
  SolidTree.Proofs.Span.Solving
  ─────────────────────────────
  **TWO QUANTITIES MAKE A SPAN.**

  A solved span is a center and half of a length.  A span can be read from
  either end, so a reading of it is a center and the step from there to the
  end that is read last; the step is negative if the reading descends:

      Span.around c h    — the solved span
      t.IsProper         — the four quantities of `t` are those of one span
      s.Reads c k ε      — each quantity of `s` is within `ε` of the reading
                           with center `c` and step `k`

  Solving takes the magnitude of the step.  All six pairs of quantities
  determine center and step, and an error in the quantities is at most
  doubled by that.

  Main results:
    * `exists_around` — every solved span is one around a center
    * `solve?_isProper` — what is solved, and that it is a span
    * `solve?_of_reads` — two quantities near a reading solve to a span near it
-/
import Mathlib.Algebra.Order.Group.Unbundled.Abs
import SolidTree.Geometry.Span
import SolidTree.Proofs.Exact.Angle

namespace SolidTree

/-! ## §1. Spans around a center. -/

/-- The span of a center and half of a length. -/
def Span.around (center half : ℚ) : Span ℚ := ⟨center - half, center, center + half, 2 * half⟩

/-- Each quantity of the span is at most `ε` away from that of another one. -/
structure Span.Close (ε : ℚ) (s t : Span ℚ) : Prop where
  start : |s.start - t.start| ≤ ε
  center : |s.center - t.center| ≤ ε
  finish : |s.finish - t.finish| ≤ ε
  distance : |s.distance - t.distance| ≤ ε

/-- The errors of a center and of half of a length at most add up in the ends. -/
theorem Span.close_around {c h c' h' ε : ℚ} (hcenter : |c - c'| ≤ 2 * ε)
    (hhalf : |h - h'| ≤ 2 * ε) : Span.Close (4 * ε) (.around c h) (.around c' h') := by
  rw [abs_le] at hcenter hhalf
  unfold Span.around
  constructor <;> rw [abs_le] <;> constructor <;> linarith [hcenter.1, hcenter.2, hhalf.1, hhalf.2]

/-- The quantities are those of one span: it ascends, its length is what its ends are apart, and
its center is in the middle. -/
structure Span.IsProper (t : Span ℚ) : Prop where
  ascends : t.start ≤ t.finish
  distance_eq : t.distance = t.finish - t.start
  distance_nonneg : 0 ≤ t.distance
  center_eq : t.center = (t.start + t.finish) / 2

/-- Half of a length on either side of a center makes a span. -/
theorem Span.isProper_around (center : ℚ) {half : ℚ} (h : 0 ≤ half) :
    (Span.around center half).IsProper where
  ascends := by
    show center - half ≤ center + half
    linarith
  distance_eq := by
    show 2 * half = center + half - (center - half)
    ring
  distance_nonneg := mul_nonneg zero_le_two h
  center_eq := by
    show center = (center - half + (center + half)) / 2
    ring

private theorem literal_two : (2.0 : ℚ) = 2 := by norm_num

theorem Span.between_eq (a b : ℚ) : Span.between a b = .around ((a + b) / 2) |(b - a) / 2| := by
  unfold Span.between Span.around
  simp only [literal_two]
  by_cases h : a < b
  · rw [if_pos h, abs_of_nonneg (by linarith)]
    congr 1 <;> ring
  · rw [if_neg h, abs_of_nonpos (by linarith)]
    congr 1 <;> ring

namespace SpanSpec

theorem ofStartCenter_eq (a c : ℚ) : ofStartCenter a c = .around c |c - a| := by
  unfold ofStartCenter Span.around
  simp only [literal_two, Rational.abs_eq]
  by_cases h : a < c
  · rw [if_pos h, abs_of_nonneg (by linarith)]
    congr 1 <;> ring
  · rw [if_neg h, abs_of_nonpos (by linarith)]
    congr 1 <;> ring

theorem ofCenterFinish_eq (c b : ℚ) : ofCenterFinish c b = .around c |b - c| := by
  unfold ofCenterFinish Span.around
  simp only [literal_two, Rational.abs_eq]
  by_cases h : c < b
  · rw [if_pos h, abs_of_nonneg (by linarith)]
    congr 1 <;> ring
  · rw [if_neg h, abs_of_nonpos (by linarith)]
    congr 1 <;> ring

theorem ofCenterDistance_eq (c d : ℚ) : ofCenterDistance c d = .around c |d / 2| := by
  unfold ofCenterDistance Span.around
  simp only [literal_two, Rational.abs_eq, abs_div, abs_two]
  congr 1
  ring

/-- Every solved span is one around a center. -/
theorem exists_around {s : SpanSpec ℚ} {t : Span ℚ} (h : s.solve? = some t) :
    ∃ c k : ℚ, t = .around c |k| := by
  unfold solve? at h
  split at h <;> cases h
  · exact ⟨_, _, ofStartCenter_eq _ _⟩
  · exact ⟨_, _, Span.between_eq _ _⟩
  · exact ⟨_, _, Span.between_eq _ _⟩
  · exact ⟨_, _, ofCenterFinish_eq _ _⟩
  · exact ⟨_, _, ofCenterDistance_eq _ _⟩
  · exact ⟨_, _, Span.between_eq _ _⟩
  · exact ⟨_, _, ofCenterDistance_eq _ _⟩

theorem isProper_of_solve? {s : SpanSpec ℚ} {t : Span ℚ} (h : s.solve? = some t) : t.IsProper := by
  obtain ⟨c, k, rfl⟩ := exists_around h
  exact Span.isProper_around c (abs_nonneg k)

/-- The ends of a solved span are their length apart. -/
theorem finish_eq {s : SpanSpec ℚ} {t : Span ℚ} (h : s.solve? = some t) :
    t.finish = t.start + t.distance := by
  rw [(isProper_of_solve? h).distance_eq]
  ring

theorem distance_nonneg {s : SpanSpec ℚ} {t : Span ℚ} (h : s.solve? = some t) :
    0 ≤ t.distance :=
  (isProper_of_solve? h).distance_nonneg

/-- Only fewer than two quantities are not solved, and a length alone is. -/
theorem solve?_eq_none_iff {s : SpanSpec ℚ} :
    s.solve? = none ↔ s.count < 2 ∧ s.distance? = none := by
  obtain ⟨start?, center?, finish?, distance?⟩ := s
  cases start? <;> cases center? <;> cases finish? <;> cases distance? <;> simp [solve?, count]

/-- **Every solution is a span.** There is none just if fewer than two quantities are given and
the length is not given. In all other cases, whether the quantities agree or not and whatever their
direction, the solution ascends, its length is what its ends are apart, and its center is in the
middle. -/
theorem solve?_isProper (s : SpanSpec ℚ) :
    (s.solve? = none ↔ s.count < 2 ∧ s.distance? = none) ∧
      ∀ t, s.solve? = some t → t.IsProper :=
  ⟨solve?_eq_none_iff, fun _ => isProper_of_solve?⟩

/-- Quantities in descending order that contradict each other, of which the first two are taken. -/
theorem solve?_isProper_descending :
    (⟨some 5, some 0, some 7, some (-3)⟩ : SpanSpec ℚ).solve? = some ⟨-5, 0, 5, 10⟩ ∧
      (⟨-5, 0, 5, 10⟩ : Span ℚ).IsProper := by
  have hsolved : (⟨some 5, some 0, some 7, some (-3)⟩ : SpanSpec ℚ).solve?
      = some ⟨-5, 0, 5, 10⟩ := by decide +kernel
  exact ⟨hsolved, (solve?_isProper _).2 _ hsolved⟩

/-! ## §2. Readings of a span. -/

/-- Each given quantity is at most `ε` away from that of the span with center `c` that is read
from `c - k` to `c + k`. -/
structure Reads (s : SpanSpec ℚ) (c k ε : ℚ) : Prop where
  start : ∀ a, s.start? = some a → |a - (c - k)| ≤ ε
  center : ∀ a, s.center? = some a → |a - c| ≤ ε
  finish : ∀ a, s.finish? = some a → |a - (c + k)| ≤ ε
  distance : ∀ a, s.distance? = some a → |a - 2 * k| ≤ ε

variable {s : SpanSpec ℚ} {c k ε : ℚ}

section Exact

variable (h : s.Reads c k 0) {a : ℚ}
include h

theorem Reads.start_eq (ha : s.start? = some a) : a = c - k :=
  sub_eq_zero.mp (abs_nonpos_iff.mp (h.start a ha))

theorem Reads.center_eq (ha : s.center? = some a) : a = c :=
  sub_eq_zero.mp (abs_nonpos_iff.mp (h.center a ha))

theorem Reads.finish_eq (ha : s.finish? = some a) : a = c + k :=
  sub_eq_zero.mp (abs_nonpos_iff.mp (h.finish a ha))

theorem Reads.distance_eq (ha : s.distance? = some a) : a = 2 * k :=
  sub_eq_zero.mp (abs_nonpos_iff.mp (h.distance a ha))

end Exact

/-- **Any two quantities determine the span.** If they are near those of a reading, then the
solved span is near the one that is read, whatever the direction. -/
theorem solve?_of_reads (h : s.Reads c k ε) (hcount : 2 ≤ s.count) :
    ∃ c' k' : ℚ, s.solve? = some (.around c' |k'|) ∧ |c' - c| ≤ 2 * ε ∧ |k' - k| ≤ 2 * ε := by
  obtain ⟨start?, center?, finish?, distance?⟩ := s
  -- The cases are those of `solve?`: which pair of quantities is taken.
  match start?, center?, finish?, distance? with
  | some a, some b, _, _ =>
    have ha := abs_le.mp (h.start a rfl)
    have hb := abs_le.mp (h.center b rfl)
    refine ⟨_, _, congrArg some (ofStartCenter_eq a b), ?_, ?_⟩ <;> rw [abs_le] <;>
      constructor <;> linarith [ha.1, ha.2, hb.1, hb.2]
  | some a, none, some b, _ =>
    have ha := abs_le.mp (h.start a rfl)
    have hb := abs_le.mp (h.finish b rfl)
    refine ⟨_, _, congrArg some (Span.between_eq a b), ?_, ?_⟩ <;> rw [abs_le] <;>
      constructor <;> linarith [ha.1, ha.2, hb.1, hb.2]
  | some a, none, none, some d =>
    have ha := abs_le.mp (h.start a rfl)
    have hd := abs_le.mp (h.distance d rfl)
    refine ⟨_, _, congrArg some (Span.between_eq a (a + d)), ?_, ?_⟩ <;> rw [abs_le] <;>
      constructor <;> linarith [ha.1, ha.2, hd.1, hd.2]
  | none, some a, some b, _ =>
    have ha := abs_le.mp (h.center a rfl)
    have hb := abs_le.mp (h.finish b rfl)
    refine ⟨_, _, congrArg some (ofCenterFinish_eq a b), ?_, ?_⟩ <;> rw [abs_le] <;>
      constructor <;> linarith [ha.1, ha.2, hb.1, hb.2]
  | none, some a, none, some d =>
    have ha := abs_le.mp (h.center a rfl)
    have hd := abs_le.mp (h.distance d rfl)
    refine ⟨_, _, congrArg some (ofCenterDistance_eq a d), ?_, ?_⟩ <;> rw [abs_le] <;>
      constructor <;> linarith [ha.1, ha.2, hd.1, hd.2]
  | none, none, some b, some d =>
    have hb := abs_le.mp (h.finish b rfl)
    have hd := abs_le.mp (h.distance d rfl)
    refine ⟨_, _, congrArg some (Span.between_eq (b - d) b), ?_, ?_⟩ <;> rw [abs_le] <;>
      constructor <;> linarith [hb.1, hb.2, hd.1, hd.2]
  | none, none, none, none | none, none, none, some _ | none, none, some _, none
  | none, some _, none, none | some _, none, none, none =>
    -- Fewer than two quantities.
    simp [count] at hcount

end SpanSpec

end SolidTree
