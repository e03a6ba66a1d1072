/-
  SolidTree.Proofs.Rotation.Accepted
  ──────────────────────────────────
  **ROTATIONS THAT COUNT AS QUARTER TURNS.**

  Three angles are accepted if each is within the tolerance of a quarter
  turn.  The tolerance makes acceptance a property of its own: two accepted
  angles may have a sum that is not, and two refused ones a sum that is.
  But where all three are accepted, their quarters add up.

  Main results:
    * `ofDegrees_eq_ok`  — what is accepted, and as which quarters
    * `ofDegrees_add`    — an accepted sum is one turn after the other
-/
import SolidTree.Proofs.Exact.Angle
import SolidTree.Proofs.Rotation.Axial

namespace SolidTree.QuarterTurn

/-! ## §1. One angle. -/

/-- Whole turns do not change what an angle counts as. -/
theorem quarters?_sub_turns (a : ℚ) (m : ℤ) : quarters? (a - m * 360) = quarters? a := by
  refine Option.ext fun q => ?_
  rw [quarters?_eq_some, quarters?_eq_some]
  constructor
  · rintro ⟨k, hnear, hq⟩
    exact ⟨k + 4 * m, (near_sub_turns m).mp hnear, by omega⟩
  · rintro ⟨k, hnear, hq⟩
    refine ⟨k - 4 * m, (near_sub_turns m).mpr ?_, by omega⟩
    rw [sub_add_cancel]
    exact hnear

/-- Reducing an angle does not change what it counts as. -/
theorem quarters?_normalize (a : ℚ) : quarters? (Angle.normalize a) = quarters? a := by
  obtain ⟨-, -, m, hm⟩ := Angle.normalize_spec a
  rw [hm, quarters?_sub_turns]

/-- Two angles and their sum are near numbers of quarters of which one is the sum of the
others: three tolerances are less than a quarter. -/
theorem Near.add {a b : ℚ} {j k l : ℤ} (ha : Near a j) (hb : Near b k) (hsum : Near (a + b) l) :
    l = j + k := by
  have h : |((l - (j + k) : ℤ) : ℚ)| < 1 := by
    have htolerance : (tolerance : ℚ) < 30 := by
      show (1e-9 : ℚ) < 30
      norm_num
    obtain ⟨h1, h2⟩ := abs_le.mp ha
    obtain ⟨h3, h4⟩ := abs_le.mp hb
    obtain ⟨h5, h6⟩ := abs_le.mp hsum
    rw [abs_lt]
    push_cast
    constructor <;> linarith
  have h' : |l - (j + k)| < 1 := by exact_mod_cast h
  have := Int.abs_lt_one_iff.mp h'
  omega

theorem quarters?_add {a b : ℚ} {p q r : ℕ} (ha : quarters? a = some p)
    (hb : quarters? b = some q) (hsum : quarters? (a + b) = some r) : r = (p + q) % 4 := by
  obtain ⟨j, hj, hp⟩ := quarters?_eq_some.mp ha
  obtain ⟨k, hk, hq⟩ := quarters?_eq_some.mp hb
  obtain ⟨l, hl, hr⟩ := quarters?_eq_some.mp hsum
  have h := hj.add hk hl
  omega

theorem quarters?_zero {q : ℕ} (h : quarters? (0 : ℚ) = some q) : q = 0 := by
  have hsum : quarters? (0 + 0 : ℚ) = some q := by
    rw [add_zero]
    exact h
  -- Up to whole turns the number of quarters of zero is its own double.
  have hdouble := quarters?_add h h hsum
  omega

/-! ## §2. Three angles. -/

/-- The three angles count as quarter turns. -/
def Accepts {α : Type} [Scalar α] (a : Vec3 α) : Prop := ∃ t, ofDegrees a = .ok t

/-- Three angles are accepted iff each is, and then they are the turn of their quarters. -/
theorem ofDegrees_eq_ok {α : Type} [Scalar α] {a : Vec3 α} {t : QuarterTurn} :
    ofDegrees a = .ok t ↔ ∃ q : Vec3 ℕ, quarters? a.x = some q.x ∧ quarters? a.y = some q.y ∧
      quarters? a.z = some q.z ∧ t = ofQuarters q := by
  unfold ofDegrees
  constructor
  · intro h
    split at h
    next x y z hx hy hz =>
      cases h
      exact ⟨⟨x, y, z⟩, hx, hy, hz, rfl⟩
    next => cases h
  · rintro ⟨q, hx, hy, hz, rfl⟩
    rw [hx, hy, hz]

/-- Three angles are accepted iff each counts as some quarters. -/
theorem accepts_iff_forall {α : Type} [Scalar α] {a : Vec3 α} :
    Accepts a ↔ ∀ axis, ∃ q, quarters? (a.get axis) = some q := by
  constructor
  · rintro ⟨t, ht⟩ axis
    obtain ⟨q, hx, hy, hz, -⟩ := ofDegrees_eq_ok.mp ht
    cases axis
    · exact ⟨_, hx⟩
    · exact ⟨_, hy⟩
    · exact ⟨_, hz⟩
  · intro h
    obtain ⟨x, hx⟩ := h .x
    obtain ⟨y, hy⟩ := h .y
    obtain ⟨z, hz⟩ := h .z
    exact ⟨_, ofDegrees_eq_ok.mpr ⟨⟨x, y, z⟩, hx, hy, hz, rfl⟩⟩

/-- Angles that are not accepted are refused with the fault that names them. -/
theorem ofDegrees_eq_error {α : Type} [Scalar α] {a : Vec3 α} (h : ¬ Accepts a) :
    ofDegrees a = .error (.unsupportedTransform (.rotation a)) := by
  unfold ofDegrees
  split
  next x y z hx hy hz =>
    exact absurd ⟨_, ofDegrees_eq_ok.mpr ⟨⟨x, y, z⟩, hx, hy, hz, rfl⟩⟩ h
  next => rfl

theorem isAxial_ofDegrees {α : Type} [Scalar α] {a : Vec3 α} {t : QuarterTurn}
    (h : ofDegrees a = .ok t) : t.IsAxial := by
  obtain ⟨q, -, -, -, rfl⟩ := ofDegrees_eq_ok.mp h
  exact isAxial_ofQuarters q

theorem ofDegrees_normalize {a : Vec3 ℚ} {t : QuarterTurn} :
    ofDegrees (a.map Angle.normalize) = .ok t ↔ ofDegrees a = .ok t := by
  rw [ofDegrees_eq_ok, ofDegrees_eq_ok]
  unfold Vec3.map
  simp only [quarters?_normalize]

/-- **An accepted sum is a composition.** Where the angles of two accepted rotations can
be added and the sum is accepted too, it is the outer turn after the inner one. -/
theorem ofDegrees_add {a b : Vec3 ℚ} (hsums : Turns.Sums a b) {s t r : QuarterTurn}
    (ha : ofDegrees a = .ok s) (hb : ofDegrees b = .ok t) (hsum : ofDegrees (a + b) = .ok r) :
    r = s.after t := by
  obtain ⟨p, hpx, hpy, hpz, rfl⟩ := ofDegrees_eq_ok.mp ha
  obtain ⟨q, hqx, hqy, hqz, rfl⟩ := ofDegrees_eq_ok.mp hb
  obtain ⟨n, hnx, hny, hnz, rfl⟩ := ofDegrees_eq_ok.mp hsum
  -- An angle of zero counts as no quarters, so the quarters can be added as well.
  have hzero : ∀ {x : ℚ} {k : ℕ}, x = 0 → quarters? x = some k → k = 0 := by
    rintro x k rfl h
    exact quarters?_zero h
  have hquarters : Turns.Sums p q := by
    rcases hsums with ⟨hx, hy⟩ | ⟨hz, hx, hz'⟩ | ⟨hy, hz, hy', hz'⟩
    · exact .inl ⟨hzero hx hpx, hzero hy hpy⟩
    · exact .inr (.inl ⟨hzero hz hqz, hzero hx hpx, hzero hz' hpz⟩)
    · exact .inr (.inr ⟨hzero hy hqy, hzero hz hqz, hzero hy' hpy, hzero hz' hpz⟩)
  have hmod : ofQuarters n = ofQuarters (p + q) := by
    have hx : n.x = (p + q).x % 4 := quarters?_add hpx hqx hnx
    have hy : n.y = (p + q).y % 4 := quarters?_add hpy hqy hny
    have hz : n.z = (p + q).z % 4 := quarters?_add hpz hqz hnz
    unfold ofQuarters
    rw [hx, hy, hz, about_mod, about_mod, about_mod]
  rw [hmod, ofQuarters_eq_angles, turns.angles_add hquarters]
  rfl

end SolidTree.QuarterTurn
