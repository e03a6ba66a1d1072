/-
  SolidTree.Proofs.Sweep.Sector
  ─────────────────────────────
  **THE EDGES OF A SWEPT PROFILE.**

  A profile that is turned about the Z axis covers a sector of a ring.  Its
  edges are computed from a few angles only: the two ends of the sweep and
  the quarter turns between them.  That is enough, since from one of these
  angles to the next a component only rises or only falls, and since at a
  fixed angle the radii count with one sign.

      swept         — what the points of the profile show on an axis
      samples       — the angles that are looked at

  Main result:
    * `revolved_extents` — the four sides of a revolved profile are the least
      and the greatest coordinates that its points reach
-/
import Mathlib.Analysis.SpecialFunctions.Trigonometric.Basic
import Mathlib.Order.Interval.Set.UnorderedInterval
import SolidTree.Proofs.Exact.Outermost
import SolidTree.Proofs.Sweep.Direction
import SolidTree.Proofs.Tree.Readings

namespace SolidTree

open scoped Reals

noncomputable section

/-! ## §1. What a profile sweeps. -/

/-- The number is the least one of the set, or the greatest one. -/
def Side.IsExtremum (s : Side) (S : Set ℝ) (v : ℝ) : Prop :=
  match s with
  | .min => IsLeast S v
  | .max => IsGreatest S v

theorem Side.isExtremum_iff {s : Side} {S : Set ℝ} {v : ℝ} :
    s.IsExtremum S v ↔ v ∈ S ∧ ∀ x ∈ S, s.Within v x := by
  cases s <;> rfl

/-- The coordinates on an axis of what lies from `left` to `right` of the Z axis while it
turns from 0 to `angle` degrees. -/
def swept (axis : Axis) (left right angle : ℝ) : Set ℝ :=
  {c | ∃ x ∈ Set.Icc left right, ∃ t ∈ Set.uIcc 0 angle, c = x * Angle.component axis t}

/-! ## §2. Angles that are looked at. -/

namespace Operator

instance : Scalar.Ordered ℝ where
  le_refl := le_refl
  le_trans _ _ _ := le_trans
  le_total := le_total
  isNumber _ := decide_eq_true rfl

/-- The ends of a sweep and the quarter turns between them. -/
def samples (start stop : ℝ) : List ℝ := start :: stop :: quartersBetween start stop

/-- From an ascending list everything below a bound is taken. -/
theorem mem_takeWhile_lt {xs : List ℝ} (hsorted : xs.Pairwise (· < ·)) {stop c : ℝ} :
    c ∈ xs.takeWhile (· < stop) ↔ c ∈ xs ∧ c < stop := by
  induction hsorted with
  | nil => simp
  | @cons x rest hfirst _ ih =>
    by_cases hx : x < stop
    · rw [List.takeWhile_cons_of_pos (by simpa using hx), List.mem_cons, ih, List.mem_cons]
      constructor
      · rintro (rfl | ⟨hmem, hlt⟩)
        · exact ⟨.inl rfl, hx⟩
        · exact ⟨.inr hmem, hlt⟩
      · rintro ⟨rfl | hmem, hlt⟩
        · exact .inl rfl
        · exact .inr ⟨hmem, hlt⟩
    · rw [List.takeWhile_cons_of_neg (by simpa using hx)]
      -- Nothing after the first one that is not below the bound is below it either.
      refine iff_of_false List.not_mem_nil fun ⟨hmem, hlt⟩ => hx ?_
      rcases List.mem_cons.mp hmem with rfl | hmem
      · exact hlt
      · exact (hfirst c hmem).trans hlt

/-- The quarter turns next to an angle. -/
theorem quarter_spec (t : ℝ) : (⌊t / 90⌋ : ℝ) * 90 ≤ t ∧ t < (⌊t / 90⌋ + 1) * 90 := by
  have hlow := Int.floor_le (t / 90)
  have hhigh := Int.lt_floor_add_one (t / 90)
  constructor <;> linarith

/-- The listed quarter turns are all those strictly between two angles that are less than
a full turn apart. -/
theorem mem_quartersBetween {start stop : ℝ} (hturn : stop - start < 360) {c : ℝ} :
    c ∈ quartersBetween start stop ↔ ∃ k : ℤ, c = k * 90 ∧ start < c ∧ c < stop := by
  obtain ⟨hlow, hhigh⟩ := quarter_spec start
  generalize hf : ⌊start / 90⌋ = f at hlow hhigh
  have hlist : quartersBetween start stop
      = ([1, 2, 3, 4].map fun i : ℤ => ((f + i : ℤ) : ℝ) * 90).takeWhile (· < stop) := by
    have hfloor : Scalar.floor (start / 90.0 : ℝ) = f := by
      have hninety : (90.0 : ℝ) = 90 := by norm_num
      rw [hninety, ← hf]
      rfl
    unfold quartersBetween
    rw [hfloor]
    norm_num only [List.map_cons, List.map_nil, Int.cast_add]
    ring_nf
  have hsorted : ([1, 2, 3, 4].map fun i : ℤ => ((f + i : ℤ) : ℝ) * 90).Pairwise (· < ·) := by
    refine List.pairwise_map.mpr (List.Pairwise.imp (fun {i j} hij => ?_)
      (by decide : ([1, 2, 3, 4] : List ℤ).Pairwise (· < ·)))
    have : ((f + i : ℤ) : ℝ) < (f + j : ℤ) := by exact_mod_cast Int.add_lt_add_left hij f
    linarith
  rw [hlist, mem_takeWhile_lt hsorted, List.mem_map]
  constructor
  · rintro ⟨⟨i, hi, rfl⟩, hstop⟩
    refine ⟨f + i, rfl, ?_, hstop⟩
    have hone : 1 ≤ i := by
      simp only [List.mem_cons, List.not_mem_nil, or_false] at hi
      omega
    have : (1 : ℝ) ≤ i := by exact_mod_cast hone
    push_cast
    linarith
  · rintro ⟨k, rfl, hstart, hstop⟩
    have hk1 : f < k := by
      have : (f : ℝ) < k := by linarith
      exact_mod_cast this
    have hk4 : k < f + 5 := by
      have : (k : ℝ) < f + 5 := by linarith
      exact_mod_cast this
    refine ⟨⟨k - f, ?_, by push_cast; ring⟩, hstop⟩
    simp only [List.mem_cons, List.not_mem_nil, or_false]
    omega

theorem mem_samples {start stop : ℝ} (hturn : stop - start < 360) {c : ℝ} :
    c ∈ samples start stop ↔
      c = start ∨ c = stop ∨ ∃ k : ℤ, c = k * 90 ∧ start < c ∧ c < stop := by
  unfold samples
  rw [List.mem_cons, List.mem_cons, mem_quartersBetween hturn]

theorem mem_Icc_of_mem_samples {start stop : ℝ} (hle : start ≤ stop) (hturn : stop - start < 360)
    {c : ℝ} (h : c ∈ samples start stop) : c ∈ Set.Icc start stop := by
  rcases (mem_samples hturn).mp h with rfl | rfl | ⟨k, -, hstart, hstop⟩
  · exact ⟨le_refl _, hle⟩
  · exact ⟨hle, le_refl _⟩
  · exact ⟨hstart.le, hstop.le⟩

/-- **The samples suffice.** On either side some sample is at least as far out as any angle of
the sweep. -/
theorem exists_sample {start stop : ℝ} (hturn : stop - start < 360) (s : Side) (axis : Axis)
    {t : ℝ} (ht : t ∈ Set.Icc start stop) :
    ∃ c ∈ samples start stop, s.Within (Angle.component axis c) (Angle.component axis t) := by
  obtain ⟨hlow, hhigh⟩ := quarter_spec t
  generalize ⌊t / 90⌋ = k at hlow hhigh
  -- The samples next to the angle: a quarter turn, or an end of the sweep that is nearer.
  obtain ⟨a, ha, hka, hat⟩ : ∃ a ∈ samples start stop, k * 90 ≤ a ∧ a ≤ t := by
    rcases le_or_gt ((k : ℝ) * 90) start with h | h
    · exact ⟨start, (mem_samples hturn).mpr (.inl rfl), h, ht.1⟩
    · rcases lt_or_eq_of_le (hlow.trans ht.2) with hlt | heq
      · exact ⟨k * 90, (mem_samples hturn).mpr (.inr (.inr ⟨k, rfl, h, hlt⟩)), le_refl _, hlow⟩
      · exact ⟨stop, (mem_samples hturn).mpr (.inr (.inl rfl)), heq.le, heq ▸ hlow⟩
  obtain ⟨b, hb, htb, hbk⟩ : ∃ b ∈ samples start stop, t ≤ b ∧ b ≤ (k + 1) * 90 := by
    rcases le_or_gt stop ((k + 1) * 90) with h | h
    · exact ⟨stop, (mem_samples hturn).mpr (.inr (.inl rfl)), ht.2, h⟩
    · refine ⟨(k + 1) * 90, (mem_samples hturn).mpr (.inr (.inr ⟨k + 1, ?_, ?_, h⟩)), hhigh.le,
        le_refl _⟩
      · push_cast
        rfl
      · exact ht.1.trans_lt hhigh
  rcases Angle.component_between axis hka hat htb hbk with ⟨hat', htb'⟩ | ⟨hbt', hta'⟩
  · cases s with
    | min => exact ⟨a, ha, hat'⟩
    | max => exact ⟨b, hb, htb'⟩
  · cases s with
    | min => exact ⟨b, hb, hbt'⟩
    | max => exact ⟨a, ha, hta'⟩

/-! ## §3. Partial sweeps. -/

/-- The coordinates on an axis of a sector between two radii and two angles. -/
def sector (axis : Axis) (inner outer start stop : ℝ) : Set ℝ :=
  {c | ∃ x ∈ Set.Icc inner outer, ∃ t ∈ Set.Icc start stop, c = x * Angle.component axis t}

/-- The coordinates of both radii at the angles that are looked at. -/
def corners (axis : Axis) (inner outer start stop : ℝ) : List ℝ :=
  (samples start stop).flatMap fun a =>
    [inner * Angle.component axis a, outer * Angle.component axis a]

theorem mem_corners {axis : Axis} {inner outer start stop c : ℝ} :
    c ∈ corners axis inner outer start stop ↔ ∃ a ∈ samples start stop,
      c = inner * Angle.component axis a ∨ c = outer * Angle.component axis a := by
  simp [corners]

/-- At one angle one of the two radii is at least as far out as any between them. -/
theorem exists_radius (s : Side) {inner outer x : ℝ} (hx : x ∈ Set.Icc inner outer) (f : ℝ) :
    s.Within (inner * f) (x * f) ∨ s.Within (outer * f) (x * f) := by
  rcases le_total 0 f with hf | hf
  · cases s with
    | min => exact .inl (mul_le_mul_of_nonneg_right hx.1 hf)
    | max => exact .inr (mul_le_mul_of_nonneg_right hx.2 hf)
  · cases s with
    | min => exact .inr (mul_le_mul_of_nonpos_right hx.2 hf)
    | max => exact .inl (mul_le_mul_of_nonpos_right hx.1 hf)

/-- The outermost corner of a sector is its extremum. -/
theorem isExtremum_corners (s : Side) (axis : Axis) {inner outer start stop : ℝ}
    (hinner : 0 ≤ inner) (hradii : inner ≤ outer) (hangles : start ≤ stop)
    (hturn : stop - start < 360) :
    s.IsExtremum (sector axis inner outer start stop)
      (Primitive.extreme s (corners axis inner outer start stop)) := by
  have hne : corners axis inner outer start stop ≠ [] :=
    List.ne_nil_of_mem (mem_corners.mpr ⟨start, List.mem_cons_self, .inl rfl⟩)
  obtain ⟨hmem, hwithin⟩ := Scalar.extreme_spec s hne
  rw [Side.isExtremum_iff]
  constructor
  · obtain ⟨a, ha, h | h⟩ := mem_corners.mp hmem
    · exact ⟨inner, ⟨le_refl _, hradii⟩, a, mem_Icc_of_mem_samples hangles hturn ha, h⟩
    · exact ⟨outer, ⟨hradii, le_refl _⟩, a, mem_Icc_of_mem_samples hangles hturn ha, h⟩
  · rintro _ ⟨x, hx, t, ht, rfl⟩
    -- First from the angle to a sample, then from the radius to one of the two.
    obtain ⟨a, ha, hangle⟩ := exists_sample hturn s axis ht
    have hsample : s.Within (x * Angle.component axis a) (x * Angle.component axis t) := by
      rw [mul_comm x, mul_comm x]
      exact hangle.mul_nonneg (hinner.trans hx.1)
    rcases exists_radius s hx (Angle.component axis a) with h | h
    · exact ((hwithin _ (mem_corners.mpr ⟨a, ha, .inl rfl⟩)).trans h).trans hsample
    · exact ((hwithin _ (mem_corners.mpr ⟨a, ha, .inr rfl⟩)).trans h).trans hsample

/-- The angles from `phase` to `phase + angle`, in order. -/
def sweepFrom (phase angle : ℝ) : ℝ × ℝ :=
  if 0 ≤ angle then (phase, phase + angle) else (phase + angle, phase)

theorem sweepFrom_le (phase angle : ℝ) : (sweepFrom phase angle).1 ≤ (sweepFrom phase angle).2 := by
  unfold sweepFrom
  split_ifs with h
  · exact le_add_of_nonneg_right h
  · exact add_le_of_nonpos_right (not_le.mp h).le

theorem sweepFrom_length (phase angle : ℝ) :
    (sweepFrom phase angle).2 - (sweepFrom phase angle).1 = |angle| := by
  unfold sweepFrom
  split_ifs with h
  · rw [abs_of_nonneg h, add_sub_cancel_left]
  · rw [abs_of_neg (not_le.mp h), sub_add_cancel_left]

theorem mem_sweepFrom {phase angle t : ℝ} :
    t ∈ Set.Icc (sweepFrom phase angle).1 (sweepFrom phase angle).2 ↔
      t - phase ∈ Set.uIcc 0 angle := by
  unfold sweepFrom
  split_ifs with h
  · rw [Set.uIcc_of_le h, Set.mem_Icc, Set.mem_Icc, sub_nonneg, sub_le_iff_le_add']
  · rw [Set.uIcc_of_ge (not_le.mp h).le, Set.mem_Icc, Set.mem_Icc, sub_nonpos, le_sub_iff_add_le']

/-- A profile on the positive side sweeps its own radii. -/
theorem swept_of_nonneg (axis : Axis) (left right angle : ℝ) :
    swept axis left right angle
      = sector axis left right (sweepFrom 0 angle).1 (sweepFrom 0 angle).2 := by
  unfold swept sector
  simp only [mem_sweepFrom, sub_zero]

/-- A profile on the negative side sweeps its radii half a turn ahead. -/
theorem swept_of_nonpos (axis : Axis) (left right angle : ℝ) :
    swept axis left right angle
      = sector axis (-right) (-left) (sweepFrom 180 angle).1 (sweepFrom 180 angle).2 := by
  ext c
  constructor
  · rintro ⟨x, hx, t, ht, rfl⟩
    refine ⟨-x, ⟨neg_le_neg hx.2, neg_le_neg hx.1⟩, t + 180, ?_, ?_⟩
    · rwa [mem_sweepFrom, add_sub_cancel_right]
    · rw [Angle.component_half_turn, neg_mul_neg]
  · rintro ⟨x, hx, t, ht, rfl⟩
    refine ⟨-x, ⟨le_neg_of_le_neg hx.2, neg_le_of_neg_le hx.1⟩, t - 180, mem_sweepFrom.mp ht, ?_⟩
    have hhalf := Angle.component_half_turn axis (t - 180)
    rw [sub_add_cancel] at hhalf
    rw [hhalf, mul_neg, neg_mul]

/-- The computed edge is the outermost corner of the sector. -/
theorem sectorEdge_eq (angle left right : ℝ) (e : Edge) :
    sectorEdge angle left right e =
      Primitive.extreme e.side
        (if right ≤ 0 then
          corners e.axis (-right) (-left) (sweepFrom 180 angle).1 (sweepFrom 180 angle).2
        else corners e.axis left right (sweepFrom 0 angle).1 (sweepFrom 0 angle).2) := by
  have h180 : (180.0 : ℝ) = 180 := by norm_num
  unfold sectorEdge
  simp only [Angle.direction_eq, h180]
  by_cases hright : right ≤ 0
  · simp only [if_pos hright]
    cases e <;> rfl
  · simp only [if_neg hright]
    cases e <;> rfl

/-- A sweep by less than a full turn. -/
theorem isExtremum_sectorEdge {angle left right : ℝ} (hprofile : left ≤ right)
    (hside : 0 ≤ left ∨ right ≤ 0) (hangle : |angle| < 360) (e : Edge) :
    e.side.IsExtremum (swept e.axis left right angle) (sectorEdge angle left right e) := by
  rw [sectorEdge_eq]
  by_cases hright : right ≤ 0
  · rw [if_pos hright, swept_of_nonpos]
    exact isExtremum_corners _ _ (neg_nonneg.mpr hright) (neg_le_neg hprofile)
      (sweepFrom_le _ _) (by rwa [sweepFrom_length])
  · rw [if_neg hright, swept_of_nonneg]
    exact isExtremum_corners _ _ (hside.resolve_right hright) hprofile
      (sweepFrom_le _ _) (by rwa [sweepFrom_length])

/-! ## §4. Full turns. -/

/-- In a full turn a component reaches one on both sides of the axis. -/
theorem exists_component_eq {axis : Axis} (haxis : axis ≠ .z) {angle : ℝ} (hangle : 360 ≤ |angle|) :
    (∃ t ∈ Set.uIcc 0 angle, Angle.component axis t = 1) ∧
      ∃ t ∈ Set.uIcc 0 angle, Angle.component axis t = -1 := by
  obtain ⟨a, ha0, ha180, ha⟩ : ∃ a : ℝ, 0 ≤ a ∧ a ≤ 90 ∧ Angle.component axis a = 1 := by
    cases axis with
    | x => exact ⟨0, le_refl _, by norm_num, by simp [Angle.component, Angle.radians]⟩
    | y =>
      refine ⟨90, by norm_num, le_refl _, ?_⟩
      simp only [Angle.component, Angle.radians_quarter, Real.sin_pi_div_two]
    | z => exact absurd rfl haxis
  have hahead : Angle.component axis (a + 180) = -1 := by rw [Angle.component_half_turn, ha]
  have hbehind : Angle.component axis (a - 180) = -1 := by
    have := Angle.component_half_turn axis (a - 180)
    rw [sub_add_cancel, ha] at this
    linarith
  have hbehind' : Angle.component axis (a - 360) = 1 := by
    have := Angle.component_half_turn axis (a - 360)
    rw [show a - 360 + 180 = a - 180 by ring, hbehind] at this
    linarith
  rcases le_total 0 angle with h | h
  · rw [abs_of_nonneg h] at hangle
    rw [Set.uIcc_of_le h]
    exact ⟨⟨a, ⟨ha0, by linarith⟩, ha⟩, a + 180, ⟨by linarith, by linarith⟩, hahead⟩
  · rw [abs_of_nonpos h] at hangle
    rw [Set.uIcc_of_ge h]
    exact ⟨⟨a - 360, ⟨by linarith, by linarith⟩, hbehind'⟩, a - 180, ⟨by linarith, by linarith⟩,
      hbehind⟩

theorem abs_component_le (axis : Axis) (t : ℝ) : |Angle.component axis t| ≤ 1 := by
  cases axis with
  | x => exact Real.abs_cos_le_one _
  | y | z => exact Real.abs_sin_le_one _

/-- How far out a full turn reaches: to the outer radius on all sides. -/
def fullTurnEdge (left right : ℝ) (e : Edge) : ℝ :=
  match e.side with
  | .min => -Scalar.greater right (-left)
  | .max => Scalar.greater right (-left)

/-- The outer radius is that of one end of the profile, and no point is farther out. -/
theorem outerRadius_spec {left right : ℝ} (hprofile : left ≤ right) :
    (∃ x ∈ Set.Icc left right,
      x = Scalar.greater right (-left) ∨ x = -Scalar.greater right (-left)) ∧
    ∀ x ∈ Set.Icc left right, |x| ≤ Scalar.greater right (-left) := by
  obtain ⟨hone, hright, hleft⟩ := Scalar.outer_choice .max right (-left)
  constructor
  · rcases hone with h | h
    · exact ⟨right, ⟨hprofile, le_refl _⟩, .inl h.symm⟩
    · exact ⟨left, ⟨le_refl _, hprofile⟩, .inr (neg_eq_iff_eq_neg.mp h.symm)⟩
  · intro x hx
    exact abs_le.mpr ⟨neg_le.mp ((neg_le_neg hx.1).trans hleft), hx.2.trans hright⟩

/-- A sweep by a full turn or more. -/
theorem isExtremum_fullTurnEdge {angle left right : ℝ} (hprofile : left ≤ right)
    (hangle : 360 ≤ |angle|) {e : Edge} (he : e.axis ≠ .z) :
    e.side.IsExtremum (swept e.axis left right angle) (fullTurnEdge left right e) := by
  obtain ⟨⟨x, hx, hxr⟩, hfar⟩ := outerRadius_spec hprofile
  unfold fullTurnEdge
  generalize Scalar.greater right (-left) = r at hxr hfar
  obtain ⟨⟨t, ht, hone⟩, t', ht', hminus⟩ := exists_component_eq he hangle
  have hreach : r ∈ swept e.axis left right angle ∧ -r ∈ swept e.axis left right angle := by
    rcases hxr with rfl | rfl
    · exact ⟨⟨x, hx, t, ht, by rw [hone, mul_one]⟩, x, hx, t', ht', by rw [hminus, mul_neg_one]⟩
    · exact ⟨⟨-r, hx, t', ht', by rw [hminus, mul_neg_one, neg_neg]⟩, -r, hx, t, ht,
        by rw [hone, mul_one]⟩
  have hbound : ∀ c ∈ swept e.axis left right angle, -r ≤ c ∧ c ≤ r := by
    rintro _ ⟨y, hy, u, -, rfl⟩
    refine abs_le.mp ?_
    rw [abs_mul]
    exact (mul_le_of_le_one_right (abs_nonneg y) (abs_component_le _ u)).trans (hfar y hy)
  cases e.side with
  | min => exact ⟨hreach.2, fun c hc => (hbound c hc).1⟩
  | max => exact ⟨hreach.1, fun c hc => (hbound c hc).2⟩

/-! ## §5. Revolved profiles. -/

/-- What is computed for a side of a profile that does not cross the axis. -/
theorem revolvedReading_eq {angle left right : ℝ} {child : Edge → Reading ℝ}
    (hleft : child .left = .ok left) (hright : child .right = .ok right)
    (hside : 0 ≤ left ∨ right ≤ 0) {e : Edge} (he : e.axis ≠ .z) :
    revolvedReading angle child e
      = .ok (if 360 ≤ |angle| then fullTurnEdge left right e else sectorEdge angle left right e) := by
  have hcross : ¬ (left < 0 ∧ 0 < right) := by
    rintro ⟨hl, hr⟩
    rcases hside with h | h
    · exact absurd hl (not_lt.mpr h)
    · exact absurd hr (not_lt.mpr h)
  have h360 : (360.0 : ℝ) = 360 := by norm_num
  have habs : Scalar.abs angle = |angle| := rfl
  unfold revolvedReading
  simp only [hleft, hright, bind, Except.bind, if_neg hcross, h360, habs, pure, Except.pure]
  cases e with
  | bottom | top => exact absurd rfl he
  | left | right | back | front =>
    by_cases hturn : 360 ≤ |angle|
    · simp only [if_pos hturn]
      rfl
    · simp only [if_neg hturn]

end Operator

open Operator in
/-- **The box of a partial sweep is exact.** The four sides of a profile that is turned by any
angle about an axis that it does not cross are the least and the greatest coordinates of its
points on the way; by a full turn or more they are those of one full turn. -/
theorem revolved_extents (tag : Tag) (angle : ℝ) (convexity : Option UInt32) (segments : UInt32)
    {profile : List (Node ℝ)} (hne : profile ≠ []) {left right : ℝ}
    (hleft : (Extents.union (profile.map Node.extents)).left = .ok left)
    (hright : (Extents.union (profile.map Node.extents)).right = .ok right)
    (hprofile : left ≤ right) (hside : 0 ≤ left ∨ right ≤ 0) {e : Edge} (he : e.axis ≠ .z) :
    ∃ v, (Node.apply tag (.rotateExtrude angle convexity segments) profile).extents.get e = .ok v ∧
      e.side.IsExtremum (swept e.axis left right angle) v ∧
      (360 ≤ |angle| → e.side.IsExtremum (swept e.axis left right 360) v) := by
  have hread : (Node.apply tag (.rotateExtrude angle convexity segments) profile).extents.get e
      = revolvedReading angle (Extents.union (profile.map Node.extents)).get e := by
    rw [Node.extents_apply, Operator.get_extents _ (by simpa using hne)]
    rfl
  rw [hread, revolvedReading_eq hleft hright hside he]
  refine ⟨_, rfl, ?_⟩
  by_cases hturn : 360 ≤ |angle|
  · rw [if_pos hturn]
    have hfull : (360 : ℝ) ≤ |(360 : ℝ)| := le_abs_self _
    exact ⟨isExtremum_fullTurnEdge hprofile hturn he,
      fun _ => isExtremum_fullTurnEdge hprofile hfull he⟩
  · rw [if_neg hturn]
    exact ⟨isExtremum_sectorEdge hprofile hside (not_le.mp hturn) e, fun h => absurd h hturn⟩

/-! A square on the negative side, turned back by a quarter and a half. -/

/-- A square of side one, from 3/2 to 1/2 on the negative side of the axis. -/
def sideSquare : Node ℝ := .apply {} (.translate ⟨-1, 0, 0⟩) [.leaf {} (.square 1 1)]

theorem sideSquare_get (e : Edge) (he : e = .left ∨ e = .right) :
    (Extents.union ([sideSquare].map Node.extents)).get e
      = .ok (Primitive.centered e (1 : ℝ) + -1) := by
  rw [List.map_singleton, Extents.union_singleton, sideSquare, Node.extents_apply,
    Operator.get_extents _ (by simp), List.map_singleton, Extents.union_singleton]
  rcases he with rfl | rfl <;> rfl

theorem revolved_extents_sideSquare :
    (Extents.union ([sideSquare].map Node.extents)).left = .ok (-3 / 2) ∧
      (Extents.union ([sideSquare].map Node.extents)).right = .ok (-1 / 2) ∧
      ∃ v, (Node.apply {} (.rotateExtrude (-135) none 8) [sideSquare]).extents.get .front = .ok v ∧
        Side.max.IsExtremum (swept .y (-3 / 2) (-1 / 2) (-135)) v := by
  have hleft : (Extents.union ([sideSquare].map Node.extents)).left = .ok (-3 / 2) := by
    refine (sideSquare_get .left (.inl rfl)).trans ?_
    norm_num [Primitive.centered, Edge.side]
  have hright : (Extents.union ([sideSquare].map Node.extents)).right = .ok (-1 / 2) := by
    refine (sideSquare_get .right (.inr rfl)).trans ?_
    norm_num [Primitive.centered, Edge.side]
  obtain ⟨v, hv, hextremum, -⟩ := revolved_extents {} (-135) none 8 (List.cons_ne_nil _ _)
    hleft hright (by norm_num) (.inr (by norm_num)) (e := .front) (by decide)
  exact ⟨hleft, hright, v, hv, hextremum⟩

end

end SolidTree
