/-
  SolidTree.Proofs.Span.Contradictions
  ────────────────────────────────────
  **WHAT IS KNOWN OF AN ACCEPTED SPECIFICATION.**

  Every given quantity of an accepted specification has been compared with
  the solved span, the ends crosswise if something descends, the length by
  its magnitude.  So with its length in the direction of the specification
  every pair of quantities is near a reading of the solved span:

      s.magnitude     — the largest magnitude that is given, at least one
      p.alignedTo s   — `p` with its length in the direction of `s`
      p.Strays s      — an end with a length that leads up, while `s` descends

  Main results:
    * `resolve_rejects_contradictions` — two quantities of an accepted
      specification solve to the resolved span, one that strays with its
      length turned
    * `resolve_ignores_direction` — a pair that strays does not
-/
import SolidTree.Proofs.Span.Resolving

namespace SolidTree.SpanSpec

/-! ## §1. Magnitudes. -/

/-- The quantities that are given. -/
def given (s : SpanSpec ℚ) : List ℚ :=
  [s.start?, s.center?, s.finish?, s.distance?].reduceOption

/-- The largest magnitude of the given quantities, and at least one. -/
def magnitude (s : SpanSpec ℚ) : ℚ := (s.given.map abs).foldr max 1

theorem le_foldr_max {xs : List ℚ} {x : ℚ} (h : x ∈ xs) : x ≤ xs.foldr max 1 := by
  induction xs with
  | nil => cases h
  | cons y ys ih =>
    rw [List.foldr_cons]
    rcases List.mem_cons.mp h with rfl | h
    · exact le_max_left _ _
    · exact (ih h).trans (le_max_right _ _)

theorem one_le_magnitude (s : SpanSpec ℚ) : 1 ≤ s.magnitude := by
  unfold magnitude
  induction s.given.map abs with
  | nil => exact le_refl 1
  | cons x xs ih => exact ih.trans (le_max_right _ _)

theorem abs_le_magnitude {s : SpanSpec ℚ} {a : ℚ}
    (h : some a ∈ [s.start?, s.center?, s.finish?, s.distance?]) : |a| ≤ s.magnitude := by
  refine le_foldr_max (List.mem_map_of_mem ?_)
  unfold given
  rwa [List.reduceOption_mem_iff]

/-- The error of a check is small against the magnitude of what is checked. -/
theorem error_le {a b m : ℚ} (h : Scalar.close Scalar.coordinateTolerance a b = true)
    (ha : |a| ≤ m) (hm : 1 ≤ m) : |a - b| ≤ 2e-9 * m := by
  have herror := close_iff.mp h
  -- The solved quantity is at most by the error itself larger than the given one.
  have hb : |b| ≤ |a| + |a - b| := by
    have htri := abs_sub_abs_le_abs_sub b a
    rw [abs_sub_comm b a] at htri
    linarith
  have hmax : max (max |a| |b|) 1 ≤ m + |a - b| := by
    have hnonneg := abs_nonneg (a - b)
    exact max_le (max_le (by linarith) (by linarith)) (by linarith)
  have hscaled := mul_le_mul_of_nonneg_left hmax (show (0 : ℚ) ≤ 1e-9 by norm_num)
  norm_num at herror hscaled ⊢
  linarith

/-! ## §2. The direction of a specification. -/

/-- A magnitude with the direction of the specification as its sign. -/
def directed (s : SpanSpec ℚ) (x : ℚ) : ℚ := if s.isDescending then -x else x

theorem abs_directed (s : SpanSpec ℚ) (x : ℚ) : |s.directed x| = |x| := by
  unfold directed
  split
  · exact abs_neg x
  · rfl

/-- The quantities with something done to the length. -/
def withDistance (s : SpanSpec ℚ) (f : ℚ → ℚ) : SpanSpec ℚ :=
  { s with distance? := s.distance?.map f }

/-- The quantities with the length in the direction of a specification. -/
def alignedTo (p s : SpanSpec ℚ) : SpanSpec ℚ := p.withDistance fun d => s.directed |d|

variable {s p : SpanSpec ℚ} {c k : ℚ}

/-- **Accepted quantities are near a reading**, once the length has their direction. -/
theorem Agrees.reads (h : s.Agrees (.around c |k|)) :
    (s.alignedTo s).Reads c (s.directed |k|) (2e-9 * s.magnitude) := by
  have hm := one_le_magnitude s
  have hcenter : ∀ a, s.center? = some a → |a - c| ≤ 2e-9 * s.magnitude :=
    fun a ha => error_le (h.center a ha) (abs_le_magnitude (by simp [ha])) hm
  have hdistance : ∀ d, s.distance? = some d → |(|d| - 2 * |k|)| ≤ 2e-9 * s.magnitude := by
    intro d hd
    refine error_le (h.distance d hd) ?_ hm
    rw [abs_abs]
    exact abs_le_magnitude (by simp [hd])
  have hlow : ∀ a, s.low? = some a → |a - (c - |k|)| ≤ 2e-9 * s.magnitude := by
    intro a ha
    refine error_le (h.low a ha) (abs_le_magnitude ?_) hm
    unfold low? at ha
    split at ha <;> simp [ha]
  have hhigh : ∀ a, s.high? = some a → |a - (c + |k|)| ≤ 2e-9 * s.magnitude := by
    intro a ha
    refine error_le (h.high a ha) (abs_le_magnitude ?_) hm
    unfold high? at ha
    split at ha <;> simp [ha]
  unfold low? at hlow
  unfold high? at hhigh
  unfold alignedTo withDistance directed
  -- A descending reading starts at the high end.
  by_cases hdescends : s.isDescending = true
  · simp only [if_pos hdescends] at hlow hhigh ⊢
    refine ⟨?_, hcenter, ?_, ?_⟩
    · intro a ha
      rw [sub_neg_eq_add]
      exact hhigh a ha
    · intro a ha
      rw [← sub_eq_add_neg]
      exact hlow a ha
    · intro a ha
      obtain ⟨d, hd, rfl⟩ := Option.map_eq_some_iff.mp ha
      have heq : -|d| - 2 * -|k| = -(|d| - 2 * |k|) := by ring
      rw [heq, abs_neg]
      exact hdistance d hd
  · simp only [if_neg hdescends] at hlow hhigh ⊢
    refine ⟨hlow, hcenter, hhigh, ?_⟩
    intro a ha
    obtain ⟨d, hd, rfl⟩ := Option.map_eq_some_iff.mp ha
    exact hdistance d hd

/-! ## §3. Pairs of quantities. -/

theorem count_withDistance (p : SpanSpec ℚ) (f : ℚ → ℚ) : (p.withDistance f).count = p.count := by
  unfold count withDistance
  cases p.distance? <;> rfl

theorem PartOf.withDistance (h : p.PartOf s) (f : ℚ → ℚ) :
    (p.withDistance f).PartOf (s.withDistance f) where
  start := h.start
  center := h.center
  finish := h.finish
  distance a ha := by
    obtain ⟨d, hd, rfl⟩ := Option.map_eq_some_iff.mp ha
    exact Option.map_eq_some_iff.mpr ⟨d, h.distance d hd, rfl⟩

/-- Two quantities with an aligned length solve to the resolved span. -/
theorem solve?_alignedTo {t : Span ℚ} (h : s.resolve = .ok t) (hp : p.PartOf s)
    (hcount : p.count = 2) :
    ∃ q, (p.alignedTo s).solve? = some q ∧ q.Close (1e-8 * s.magnitude) t := by
  obtain ⟨hsolve, hagrees⟩ := resolve_eq_ok.mp h
  obtain ⟨c, k, rfl⟩ := exists_around hsolve
  have hreads : (p.alignedTo s).Reads c (s.directed |k|) (2e-9 * s.magnitude) :=
    (hp.withDistance _).reads hagrees.reads
  have hcount' : 2 ≤ (p.alignedTo s).count := ((count_withDistance p _).trans hcount).ge
  obtain ⟨c', k', hsolve', hc, hk⟩ := solve?_of_reads hreads hcount'
  have hhalf : |(|k'| - |k|)| ≤ 2 * (2e-9 * s.magnitude) := by
    have hstep : |s.directed (|k|)| = |k| := (abs_directed s _).trans (abs_abs k)
    rw [← hstep]
    exact (abs_abs_sub_abs_le_abs_sub _ _).trans hk
  have hclose := Span.close_around hc hhalf
  have hle : 4 * (2e-9 * s.magnitude) ≤ 1e-8 * s.magnitude := by
    have hm := one_le_magnitude s
    norm_num
    linarith
  exact ⟨_, hsolve', hclose.start.trans hle, hclose.center.trans hle, hclose.finish.trans hle,
    hclose.distance.trans hle⟩

/-- An end with a length that leads up, in a specification that descends. -/
def Strays (p s : SpanSpec ℚ) : Prop :=
  s.isDescending = true ∧ p.center? = none ∧ ∃ d, p.distance? = some d ∧ 0 < d

/-- The quantities with the length turned around. -/
def turned (p : SpanSpec ℚ) : SpanSpec ℚ := p.withDistance fun d => -d

/-- A pair that strays is aligned by turning its length. -/
theorem alignedTo_of_strays (h : p.Strays s) : p.alignedTo s = p.turned := by
  obtain ⟨hdescends, -, d, hd, hpos⟩ := h
  unfold alignedTo turned withDistance directed
  simp only [hd, if_pos hdescends, Option.map_some, abs_of_pos hpos]

/-- A length is aligned unless it leads up and the specification down. -/
theorem directed_abs {d : ℚ} (hd : s.distance? = some d)
    (h : ¬ (s.isDescending = true ∧ 0 < d)) : s.directed |d| = d := by
  unfold directed
  by_cases hdescends : s.isDescending = true
  · have hnonpos : d ≤ 0 := not_lt.mp fun hpos => h ⟨hdescends, hpos⟩
    rw [if_pos hdescends, abs_of_nonpos hnonpos, neg_neg]
  · have hnonneg : 0 ≤ d := by
      by_contra hneg
      exact hdescends (isDescending_iff.mpr (.inr (.inr (.inr ⟨d, hd, not_le.mp hneg⟩))))
    rw [if_neg hdescends, abs_of_nonneg hnonneg]

/-- Beside a center only the magnitude of a length matters. -/
theorem solve?_withDistance {f : ℚ → ℚ} (hf : ∀ d, |f d| = |d|) {a : ℚ}
    (hcenter : p.center? = some a) : (p.withDistance f).solve? = p.solve? := by
  obtain ⟨start?, center?, finish?, distance?⟩ := p
  obtain rfl : center? = some a := hcenter
  match start?, finish?, distance? with
  | some _, _, _ | none, some _, _ | none, none, none => rfl
  | none, none, some d =>
    show some (ofCenterDistance a (f d)) = some (ofCenterDistance a d)
    unfold ofCenterDistance
    rw [Rational.abs_eq, Rational.abs_eq, hf]

/-- Pairs that do not stray need not be aligned. -/
theorem solve?_alignedTo_of_not_strays (hp : p.PartOf s) (h : ¬ p.Strays s) :
    (p.alignedTo s).solve? = p.solve? := by
  by_cases hcenter : p.center? = none
  · have hsame : p.alignedTo s = p := by
      unfold alignedTo withDistance
      cases hd : p.distance? with
      | none => rw [Option.map_none, ← hd]
      | some d =>
        have hkeeps := directed_abs (hp.distance d hd) fun hup => h ⟨hup.1, hcenter, d, hd, hup.2⟩
        rw [Option.map_some, hkeeps, ← hd]
    rw [hsame]
  · obtain ⟨a, ha⟩ := Option.ne_none_iff_exists'.mp hcenter
    exact solve?_withDistance (fun d => (abs_directed s _).trans (abs_abs d)) ha

/-- **An accepted specification has no contradictions but in direction.** Any two of its
quantities alone solve to the resolved span, up to a small error. Only a length that leads up
from an end, or to it, while the specification descends, has to be turned first. -/
theorem resolve_rejects_contradictions {t : Span ℚ} (h : s.resolve = .ok t) (hp : p.PartOf s)
    (hcount : p.count = 2) :
    (¬ p.Strays s → ∃ q, p.solve? = some q ∧ q.Close (1e-8 * s.magnitude) t) ∧
      (p.Strays s → ∃ q, p.turned.solve? = some q ∧ q.Close (1e-8 * s.magnitude) t) := by
  have hsolve := solve?_alignedTo h hp hcount
  constructor
  · intro hstrays
    rwa [solve?_alignedTo_of_not_strays hp hstrays] at hsolve
  · intro hstrays
    rwa [alignedTo_of_strays hstrays] at hsolve

/-! Two descending specifications, of which only one has a length that leads down. -/

/-- The ends of a span from the high one to the low one, with its length. -/
def upAndDown : SpanSpec ℚ where
  start? := some 10
  finish? := some 0
  distance? := some 10

/-- A span from its high end, with a center that is almost in the middle. -/
def almostCentered : SpanSpec ℚ where
  start? := some 10
  center? := some 5.0000000005
  finish? := some 0
  distance? := some (-10)

/-- The high end and the length of both. -/
def fromTen (d : ℚ) : SpanSpec ℚ where
  start? := some 10
  distance? := some d

theorem partOf_upAndDown : (fromTen 10).PartOf upAndDown := by
  constructor <;> rintro _ ⟨⟩ <;> rfl

theorem resolve_rejects_contradictions_fromTen :
    (almostCentered.resolve = .ok ⟨0.000000001, 5.0000000005, 10, 9.999999999⟩ ∧
        (fromTen (-10)).PartOf almostCentered ∧ (fromTen (-10)).count = 2 ∧
        ¬ (fromTen (-10)).Strays almostCentered ∧
        ∃ q, (fromTen (-10)).solve? = some q ∧
          q.Close (1e-8 * almostCentered.magnitude)
            ⟨0.000000001, 5.0000000005, 10, 9.999999999⟩) ∧
      upAndDown.resolve = .ok ⟨0, 5, 10, 10⟩ ∧ (fromTen 10).Strays upAndDown ∧
        ∃ q, (fromTen 10).turned.solve? = some q ∧
          q.Close (1e-8 * upAndDown.magnitude) ⟨0, 5, 10, 10⟩ := by
  have hresolve : almostCentered.resolve
      = .ok ⟨0.000000001, 5.0000000005, 10, 9.999999999⟩ := by decide +kernel
  have hpart : (fromTen (-10)).PartOf almostCentered := by
    constructor <;> rintro _ ⟨⟩ <;> rfl
  have hstrays : ¬ (fromTen (-10)).Strays almostCentered := by
    rintro ⟨-, -, _, ⟨⟩, hpos⟩
    norm_num at hpos
  have hresolve' : upAndDown.resolve = .ok ⟨0, 5, 10, 10⟩ := by decide +kernel
  have hstrays' : (fromTen 10).Strays upAndDown := ⟨by decide +kernel, rfl, 10, rfl, by norm_num⟩
  have hsolves := (resolve_rejects_contradictions hresolve hpart rfl).1 hstrays
  have hsolves' := (resolve_rejects_contradictions hresolve' partOf_upAndDown rfl).2 hstrays'
  exact ⟨⟨hresolve, hpart, rfl, hstrays, hsolves⟩, hresolve', hstrays', hsolves'⟩

/-- **The direction of a length is not checked against descending ends.** Ten up from ten is
not zero, but the specification is accepted. -/
theorem resolve_ignores_direction :
    upAndDown.resolve = .ok ⟨0, 5, 10, 10⟩ ∧ (fromTen 10).PartOf upAndDown ∧
      (fromTen 10).count = 2 ∧ (fromTen 10).solve? = some ⟨10, 15, 20, 10⟩ ∧
      ¬ Span.Close (1e-8 * upAndDown.magnitude) ⟨10, 15, 20, 10⟩ ⟨0, 5, 10, 10⟩ := by
  refine ⟨by decide +kernel, partOf_upAndDown, rfl, by decide +kernel, ?_⟩
  intro hclose
  have hfar := hclose.start
  have hmagnitude : upAndDown.magnitude = 10 := by decide +kernel
  rw [hmagnitude] at hfar
  norm_num at hfar

end SolidTree.SpanSpec
