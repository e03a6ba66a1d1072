/-
  SolidTree.Proofs.Rotation.Faces
  ───────────────────────────────
  **NODES THAT ARE TURNED BY WHOLE QUARTERS.**

  A rotation by whole quarters is always accepted, and added to other angles
  it neither makes them acceptable nor spoils them.  So it does not matter
  whether it is folded into a rotation below it, and every node turned about
  an axis reads what the node reads through the turn.  Bringing one face to
  another is a few such turns:

      n.IsTurned m t   — `m` has the coordinates of `n` after the turn `t`
      a.facesTo b      — the turn that brings face `a` to face `b`

  Main results:
    * `isTurned_rotateOn` — one turn about an axis
    * `isTurned_turnFace` — the turns from face to face
    * `facesTo_row`       — the axis of `b` is read from the axis of `a`
    * `turnFace_brings`   — face `b` is where face `a` was, and so are the faces
      opposite to them
-/
import SolidTree.Proofs.Tree.Folding
import SolidTree.Tree.Orientation

namespace SolidTree

/-! ## §1. Whole quarters. -/

namespace QuarterTurn

/-- Whole quarters do not change how near an angle is to one. -/
theorem near_quarters_add {x : ℚ} {k j : ℤ} : Near (k * 90 + x) (k + j) ↔ Near x j := by
  unfold Near
  have h : k * 90 + x - ((k + j : ℤ) : ℚ) * 90 = x - j * 90 := by
    push_cast
    ring
  rw [h]

theorem near_quarters (k : ℤ) : Near (k * 90) k := by
  unfold Near
  rw [sub_self, abs_zero]
  show (0 : ℚ) ≤ 1e-9
  norm_num

theorem exists_quarters?_iff {a : ℚ} : (∃ q, quarters? a = some q) ↔ ∃ j, Near a j := by
  constructor
  · rintro ⟨q, hq⟩
    obtain ⟨j, hj, -⟩ := quarters?_eq_some.mp hq
    exact ⟨j, hj⟩
  · rintro ⟨j, hj⟩
    exact ⟨(j % 4).toNat, quarters?_eq_some.mpr ⟨j, hj, by omega⟩⟩

theorem quarters?_quarters (k : ℤ) : quarters? (k * 90 : ℚ) = some (k % 4).toNat :=
  quarters?_eq_some.mpr ⟨k, near_quarters k, by omega⟩

/-- Each of the three angles is a whole number of quarters. -/
def IsWhole (a : Vec3 ℚ) : Prop := ∀ axis, ∃ k : ℤ, a.get axis = k * 90

/-- Three angles are accepted iff each is near some quarters. -/
theorem accepts_iff {a : Vec3 ℚ} : Accepts a ↔ ∀ axis, ∃ j, Near (a.get axis) j := by
  simp only [← exists_quarters?_iff]
  exact accepts_iff_forall

theorem IsWhole.accepts {a : Vec3 ℚ} (h : IsWhole a) : Accepts a := by
  rw [accepts_iff]
  intro axis
  obtain ⟨k, hk⟩ := h axis
  rw [hk]
  exact ⟨k, near_quarters k⟩

/-- Whole quarters more do not change whether angles are accepted. -/
theorem IsWhole.accepts_add {a : Vec3 ℚ} (h : IsWhole a) (b : Vec3 ℚ) :
    Accepts (a + b) ↔ Accepts b := by
  rw [accepts_iff, accepts_iff]
  refine forall_congr' fun axis => ?_
  obtain ⟨k, hk⟩ := h axis
  have hget : (a + b).get axis = k * 90 + b.get axis := by
    rw [← hk]
    exact Vec3.get_zipWith _ a b axis
  rw [hget]
  constructor
  · rintro ⟨j, hj⟩
    refine ⟨j - k, (near_quarters_add (k := k)).mp ?_⟩
    rwa [add_sub_cancel]
  · rintro ⟨j, hj⟩
    exact ⟨k + j, near_quarters_add.mpr hj⟩

theorem IsWhole.normalize {a : Vec3 ℚ} (h : IsWhole a) : IsWhole (a.map Angle.normalize) := by
  intro axis
  obtain ⟨k, hk⟩ := h axis
  obtain ⟨-, -, m, hm⟩ := Angle.normalize_spec (a.get axis)
  refine ⟨k - 4 * m, ?_⟩
  rw [Vec3.get_map, hm, hk]
  push_cast
  ring

/-- Quarters about one axis and nothing about the others. -/
def quartersOn (axis : Axis) (k : ℤ) : Vec3 ℚ := (0 : Vec3 ℚ).set axis (k * 90)

theorem isWhole_quartersOn (axis : Axis) (k : ℤ) : IsWhole (quartersOn axis k) := by
  have hzero : (0 : ℚ) = ((0 : ℤ) : ℚ) * 90 := by norm_num
  intro a
  cases axis <;> cases a <;> first | exact ⟨k, rfl⟩ | exact ⟨0, hzero⟩

/-- They count as the turn about that axis. -/
theorem ofDegrees_quartersOn (axis : Axis) (k : ℤ) :
    ofDegrees (quartersOn axis k) = .ok (about axis (k % 4).toNat) := by
  have hzero : quarters? (0 : ℚ) = some 0 := by
    have h := quarters?_quarters 0
    rwa [Int.cast_zero, zero_mul] at h
  have hk := quarters?_quarters k
  rw [ofDegrees_eq_ok]
  cases axis with
  | x =>
    refine ⟨⟨(k % 4).toNat, 0, 0⟩, hk, hzero, hzero, ?_⟩
    simp only [ofQuarters_eq_angles, Turns.angles, turns.turn_zero, one_mul]
    rfl
  | y =>
    refine ⟨⟨0, (k % 4).toNat, 0⟩, hzero, hk, hzero, ?_⟩
    simp only [ofQuarters_eq_angles, Turns.angles, turns.turn_zero, one_mul, mul_one]
    rfl
  | z =>
    refine ⟨⟨0, 0, (k % 4).toNat⟩, hzero, hzero, hk, ?_⟩
    simp only [ofQuarters_eq_angles, Turns.angles, turns.turn_zero, mul_one]
    rfl

/-! ## §2. Readings through a turn. -/

/-- A turn has coordinates where it had them before. -/
theorem reading_congr {t : QuarterTurn} (ht : t.IsAxial) {x y : Edge → Reading ℚ}
    (h : ∀ e v, x e = .ok v ↔ y e = .ok v) (e : Edge) (v : ℚ) :
    t.reading x e = .ok v ↔ t.reading y e = .ok v := by
  obtain ⟨column, negated, hrow⟩ := ht e.axis
  rw [reading_of_row hrow, reading_of_row hrow, Outcome.map_eq_ok, Outcome.map_eq_ok]
  exact exists_congr fun w => and_congr_left' (h _ w)

end QuarterTurn

/-! ## §3. Turned nodes. -/

namespace Node

open QuarterTurn

/-- The node `m` has the coordinates of `n` after a turn. -/
def IsTurned (n m : Node ℚ) (t : QuarterTurn) : Prop :=
  ∀ e v, m.extents.get e = .ok v ↔ t.reading n.extents.get e = .ok v

theorem IsTurned.trans {n m l : Node ℚ} {t s : QuarterTurn} (h : n.IsTurned m t)
    (h' : m.IsTurned l s) (ht : t.IsAxial) (hs : s.IsAxial) : n.IsTurned l (s.after t) := by
  intro e v
  rw [h' e v, reading_after hs ht]
  exact reading_congr hs h e v

/-- An edge of a turned node is known iff its source is, and is negated if that is on the other
side. -/
theorem IsTurned.get_of_row {n m : Node ℚ} {t : QuarterTurn} (h : n.IsTurned m t)
    {axis column : Axis} {negated : Bool} (hrow : t.RowIs axis column negated) (side : Side)
    (v : ℚ) :
    m.extents.get (.on axis side) = .ok v ↔
      n.extents.get (.on column (if negated then side.opposite else side))
        = .ok (if negated then -v else v) := by
  have hrow' : t.RowIs (Edge.on axis side).axis column negated := by rwa [Edge.axis_on]
  rw [h, reading_of_row hrow', Edge.side_on, Outcome.map_eq_ok]
  cases negated with
  | false => simp
  | true => simp [neg_eq_iff_eq_neg]

/-- Folding whole quarters into a node keeps its coordinates. -/
theorem get_extents_transform_whole {a : Vec3 ℚ} (ha : IsWhole a) (n : Node ℚ) (e : Edge) (v : ℚ) :
    (n.transform (.rotate a)).extents.get e = .ok v ↔
      (Node.apply {} (.rotate a) [n]).extents.get e = .ok v := by
  by_cases hrotations : ∃ a' b, n.SumsRotations (.rotate a) a' b
  · obtain ⟨a', b, h⟩ := hrotations
    obtain ⟨xs, hfolded, hnested⟩ := extents_transform_rotations h
    obtain ⟨hop, hsums, -⟩ := h
    cases hop
    rw [hfolded, hnested]
    refine rotate_sum_agrees hsums ?_ xs e v
    rw [ha.accepts_add, and_iff_right ha.accepts]
  · have hnone : ∀ a' b, ¬ n.SumsRotations (.rotate a) a' b := fun a' b h => hrotations ⟨a', b, h⟩
    have hgroup : Operator.rotate a = .minkowski → ¬ n.IsGroup := nofun
    rw [extents_transform_eq hgroup hnone]

/-- **A node turned about an axis** reads what the node reads through the turn. -/
theorem isTurned_rotateOn (n : Node ℚ) (axis : Axis) (k : ℤ) :
    n.IsTurned (n.rotateOn axis (k * 90)) (about axis (k % 4).toNat) := by
  intro e v
  have hturn : ofDegrees ((quartersOn axis k).map Angle.normalize)
      = .ok (about axis (k % 4).toNat) := ofDegrees_normalize.mpr (ofDegrees_quartersOn axis k)
  show ((if ((quartersOn axis k).map Angle.normalize).isZero then n
    else n.transform (.rotate ((quartersOn axis k).map Angle.normalize))).extents.get e = .ok v) ↔ _
  by_cases hzero : ((quartersOn axis k).map Angle.normalize).isZero = true
  · -- Whole turns are no node at all, and the turn moves nothing.
    have hidentity : about axis (k % 4).toNat = identity := by
      have hnone : (quartersOn axis k).map Angle.normalize = quartersOn .x 0 := by
        have hx : ((0 : ℤ) : ℚ) * 90 = 0 := by norm_num
        show _ = (⟨((0 : ℤ) : ℚ) * 90, 0, 0⟩ : Vec3 ℚ)
        rw [hx]
        exact Vec3.isZero_iff.mp hzero
      rw [hnone, ofDegrees_quartersOn] at hturn
      exact (Except.ok.inj hturn).symm
    rw [if_pos hzero, hidentity, reading_identity]
  · rw [if_neg hzero, get_extents_transform_whole (isWhole_quartersOn axis k).normalize,
      extents_apply, List.map_singleton, rotate_get_of_accepted hturn (List.cons_ne_nil _ _),
      Extents.union_singleton]

/-- Turns about several axes, one after the other. -/
theorem isTurned_rotateOns (turns : List (Axis × ℤ)) {n m : Node ℚ} {t : QuarterTurn}
    (h : n.IsTurned m t) (ht : t.IsAxial) :
    n.IsTurned (turns.foldl (fun m turn => m.rotateOn turn.1 (turn.2 * 90)) m)
      (turns.foldl (fun t turn => (about turn.1 (turn.2 % 4).toNat).after t) t) := by
  induction turns generalizing m t with
  | nil => exact h
  | cons turn rest ih =>
    rw [List.foldl_cons, List.foldl_cons]
    have hfirst := isTurned_rotateOn m turn.1 turn.2
    exact ih (h.trans hfirst ht (isAxial_about _ _)) ((isAxial_about _ _).after ht)

end Node

/-! ## §4. From face to face. -/

namespace Edge

open QuarterTurn

/-- The turns from face to face in quarters. -/
def quartersTo (a b : Edge) : List (Axis × ℤ) :=
  (a.turnsTo b : List (Axis × ℚ)).map fun turn => (turn.1, ⌊turn.2 / 90⌋)

/-- They all are whole quarters. -/
theorem turnsTo_eq_quarters (a b : Edge) :
    (a.turnsTo b : List (Axis × ℚ))
      = (a.quartersTo b).map fun turn => (turn.1, (turn.2 : ℚ) * 90) := by
  cases a <;> cases b <;> decide +kernel

/-- The turn that brings face `a` to face `b`. -/
def facesTo (a b : Edge) : QuarterTurn :=
  (a.quartersTo b).foldl (fun t turn => (about turn.1 (turn.2 % 4).toNat).after t) identity

/-- The axis of `b` is read from the axis of `a`, negated if the faces are on different
sides. -/
theorem facesTo_row (a b : Edge) : (a.facesTo b).RowIs b.axis a.axis (a.side ≠ b.side) := by
  cases a <;> cases b <;> decide +kernel

end Edge

/-- **A node turned from face to face** reads what it read through the turn. -/
theorem Node.isTurned_turnFace (n : Node ℚ) (a b : Edge) :
    n.IsTurned (n.turnFace a b) (a.facesTo b) := by
  have hstill : n.IsTurned n .identity := fun e v => by rw [QuarterTurn.reading_identity]
  have haxial : QuarterTurn.identity.IsAxial := QuarterTurn.isAxial_about .x 0
  have hturns := isTurned_rotateOns (a.quartersTo b) hstill haxial
  unfold turnFace
  rw [a.turnsTo_eq_quarters b, List.foldl_map]
  exact hturns

/-- **Face `a` is brought to face `b`.** After the turns from face to face, `b` is known just if
`a` was, and so are the faces opposite to them. What is read there is what was read before, with
its sign changed if one of the two faces is a low one and the other one is high. -/
theorem Node.turnFace_brings (n : Node ℚ) (a b : Edge) (v : ℚ) :
    ((n.turnFace a b).extents.get b = .ok v ↔
        n.extents.get a = .ok (if a.side = b.side then v else -v)) ∧
      ((n.turnFace a b).extents.get b.opposite = .ok v ↔
        n.extents.get a.opposite = .ok (if a.side = b.side then v else -v)) := by
  have hread := (n.isTurned_turnFace a b).get_of_row (a.facesTo_row b)
  -- Sides are swapped just if that takes the side of `b` to the side of `a`.
  have hface : (if a.side ≠ b.side then b.side.opposite else b.side) = a.side := by
    cases a.side <;> cases b.side <;> rfl
  have hback : (if a.side ≠ b.side then b.side.opposite.opposite else b.side.opposite)
      = a.side.opposite := by
    cases a.side <;> cases b.side <;> rfl
  have hsign : (if a.side ≠ b.side then -v else v) = if a.side = b.side then v else -v :=
    ite_not _ _ _
  constructor
  · have h := hread b.side v
    simp only [decide_eq_true_eq] at h
    rwa [hface, hsign, Edge.on_axis_side, Edge.on_axis_side] at h
  · have h := hread b.side.opposite v
    simp only [decide_eq_true_eq] at h
    rwa [hback, hsign] at h

end SolidTree
