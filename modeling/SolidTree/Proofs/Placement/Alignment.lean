/-
  SolidTree.Proofs.Placement.Alignment
  ────────────────────────────────────
  **ALIGNED NODES.**

  A node is aligned by one translation, whose offset is found axis by axis:
  how far the edge or the center that has a target is away from it.  So an
  alignment succeeds just if no axis has two targets and the edges that the
  targets read are known.  What comes out is on its targets, and it stays
  where it was on an axis without one — edges that are unknown included.

      t.IsClear   — at most one of low edge, center and high edge has a target
      t.sides     — the sides of the axis that are read to reach the target
      t.Reached   — what has a target is there

  Main results:
    * `offset_eq_ok` — the offset along one axis, target by target
    * `align_lands` — when an alignment succeeds, and what then comes out
-/
import SolidTree.Proofs.Tree.Moved
import SolidTree.Tree.Placement

namespace SolidTree

/-! ## §1. One axis. -/

namespace Target

/-- At most one of low edge, center and high edge has a target. -/
def IsClear {α : Type} (t : Target α) : Prop :=
  [t.low, t.center, t.high].countP Option.isSome ≤ 1

/-- Nothing has a target. -/
def IsFree {α : Type} (t : Target α) : Prop := t.low = none ∧ t.center = none ∧ t.high = none

/-- The sides that are read to reach the targets. -/
def sides {α : Type} (t : Target α) : List Side :=
  (if t.low.isSome ∨ t.center.isSome then [.min] else [])
    ++ (if t.high.isSome ∨ t.center.isSome then [.max] else [])

/-- Whatever has a target is at its target. -/
def Reached (t : Target ℚ) (axis : Axis) (x : Extents ℚ) : Prop :=
  (∀ c ∈ t.low, x.get (.on axis .min) = .ok c) ∧ (∀ c ∈ t.center, x.middle axis = .ok c) ∧
    ∀ c ∈ t.high, x.get (.on axis .max) = .ok c

/-- **The offset along an axis.** There is none to move without a target, and it is what the
low edge, the center or the high edge lacks to its target. -/
theorem offset_eq_ok {t : Target ℚ} {axis : Axis} {x : Extents ℚ} {d : ℚ} :
    t.offset axis x = .ok d ↔
      (t = ⟨none, none, none⟩ ∧ d = 0) ∨
      (∃ c low, t = ⟨some c, none, none⟩ ∧ x.get (.on axis .min) = .ok low ∧ c - low = d) ∨
      (∃ c middle, t = ⟨none, some c, none⟩ ∧ x.middle axis = .ok middle ∧ c - middle = d) ∨
      ∃ c high, t = ⟨none, none, some c⟩ ∧ x.get (.on axis .max) = .ok high ∧ c - high = d := by
  have hlack (r : Except (Fault ℚ) ℚ) (c : ℚ) :
      (r >>= fun a => .ok (c - a)) = .ok d ↔ ∃ a, r = .ok a ∧ c - a = d := by
    rw [Outcome.bind_eq_ok]
    exact exists_congr fun a => and_congr_right' (Except.ok.injEq _ _).to_iff
  obtain ⟨low, center, high⟩ := t
  unfold offset
  cases low with
  | none =>
    cases center with
    | none =>
      cases high with
      | none => simp [pure, Except.pure, eq_comm]
      | some c => simp [pure, Except.pure, hlack]
    | some c =>
      cases high with
      | none => simp [pure, Except.pure, hlack]
      | some _ => simp [throw, throwThe, MonadExceptOf.throw]
  | some c =>
    cases center with
    | none =>
      cases high with
      | none => simp [pure, Except.pure, hlack]
      | some _ => simp [throw, throwThe, MonadExceptOf.throw]
    | some _ => simp [throw, throwThe, MonadExceptOf.throw]

/-- There is an offset iff one thing at most has a target and the sides that it takes to know
where that thing is are known. -/
theorem exists_offset_iff {t : Target ℚ} {axis : Axis} {x : Extents ℚ} :
    (∃ d, t.offset axis x = .ok d) ↔
      t.IsClear ∧ ∀ side ∈ t.sides, ∃ c, x.get (.on axis side) = .ok c := by
  constructor
  · intro h
    obtain ⟨d, hd⟩ := h
    rcases offset_eq_ok.mp hd with ⟨rfl, -⟩ | ⟨c, low, rfl, hlow, -⟩ |
      ⟨c, middle, rfl, hmiddle, -⟩ | ⟨c, high, rfl, hhigh, -⟩
    · exact ⟨by simp [IsClear], by simp [sides]⟩
    · exact ⟨by simp [IsClear], by simp [sides, hlow]⟩
    · obtain ⟨low, high, hlow, hhigh, -⟩ := Extents.middle_eq_ok.mp hmiddle
      exact ⟨by simp [IsClear], by simp [sides, hlow, hhigh]⟩
    · exact ⟨by simp [IsClear], by simp [sides, hhigh]⟩
  · intro h
    obtain ⟨hclear, hsides⟩ := h
    have hknown (side : Side) (hside : side ∈ t.sides) : ∃ c, x.get (.on axis side) = .ok c :=
      hsides side hside
    simp only [offset_eq_ok]
    obtain ⟨low, center, high⟩ := t
    -- One thing at most has a target in the first three cases and in the fifth.
    cases low <;> cases center <;> cases high
    · exact ⟨0, .inl ⟨rfl, rfl⟩⟩
    · obtain ⟨c, hc⟩ := hknown .max (by simp [sides])
      exact ⟨_, .inr (.inr (.inr ⟨_, c, rfl, hc, rfl⟩))⟩
    · obtain ⟨low, hlow⟩ := hknown .min (by simp [sides])
      obtain ⟨high, hhigh⟩ := hknown .max (by simp [sides])
      have hmiddle := Extents.middle_eq_ok.mpr ⟨low, high, hlow, hhigh, rfl⟩
      exact ⟨_, .inr (.inr (.inl ⟨_, _, rfl, hmiddle, rfl⟩))⟩
    · simp [IsClear] at hclear
    · obtain ⟨c, hc⟩ := hknown .min (by simp [sides])
      exact ⟨_, .inr (.inl ⟨_, c, rfl, hc, rfl⟩)⟩
    all_goals simp [IsClear] at hclear

/-- What is moved by the offset is at its target. -/
theorem reached_of_offset {t : Target ℚ} {axis : Axis} {x y : Extents ℚ} {d : ℚ}
    (h : t.offset axis x = .ok d) (hmoved : x.MovedTo y axis d) : t.Reached axis y := by
  -- The offset is what the target lacks, so adding it gives the target.
  rcases offset_eq_ok.mp h with ⟨rfl, -⟩ | ⟨c, low, rfl, hlow, rfl⟩ |
    ⟨c, middle, rfl, hmiddle, rfl⟩ | ⟨c, high, rfl, hhigh, rfl⟩
  · simp [Reached]
  · have hreached : y.get (.on axis .min) = .ok c := by
      rw [hmoved .min, hlow]
      exact congrArg Except.ok (add_sub_cancel low c)
    simp [Reached, hreached]
  · have hreached : y.middle axis = .ok c := by
      rw [hmoved.middle hmiddle]
      exact congrArg Except.ok (add_sub_cancel middle c)
    simp [Reached, hreached]
  · have hreached : y.get (.on axis .max) = .ok c := by
      rw [hmoved .max, hhigh]
      exact congrArg Except.ok (add_sub_cancel high c)
    simp [Reached, hreached]

/-- Without a target there is nothing to move. -/
theorem offset_of_isFree {t : Target ℚ} (ht : t.IsFree) (axis : Axis) (x : Extents ℚ) :
    t.offset axis x = .ok 0 := by
  obtain ⟨low, center, high⟩ := t
  obtain ⟨rfl, rfl, rfl⟩ := ht
  rfl

end Target

/-! ## §2. Three axes. -/

namespace Node

/-- An aligned node is the node moved by the offsets along the three axes. -/
theorem align_eq_ok {n m : Node ℚ} {a : Alignment ℚ} :
    n.align a = .ok m ↔ ∃ v : Vec3 ℚ,
      (∀ axis, (a.get axis).offset axis n.extents = .ok (v.get axis)) ∧ n.translate v = m := by
  unfold align
  dsimp only
  constructor
  · intro h
    obtain ⟨x, hx, h⟩ := Outcome.bind_eq_ok.mp h
    obtain ⟨y, hy, h⟩ := Outcome.bind_eq_ok.mp h
    obtain ⟨z, hz, h⟩ := Outcome.bind_eq_ok.mp h
    refine ⟨⟨x, y, z⟩, ?_, Except.ok.inj h⟩
    intro axis
    cases axis <;> assumption
  · intro h
    obtain ⟨⟨x, y, z⟩, hoffset, rfl⟩ := h
    have hx : a.x.offset .x n.extents = .ok x := hoffset .x
    have hy : a.y.offset .y n.extents = .ok y := hoffset .y
    have hz : a.z.offset .z n.extents = .ok z := hoffset .z
    rw [hx, hy, hz]
    rfl

theorem exists_align_iff (n : Node ℚ) (a : Alignment ℚ) :
    (∃ m, n.align a = .ok m) ↔
      ∀ axis, ∃ d, (a.get axis).offset axis n.extents = .ok d := by
  simp only [align_eq_ok]
  constructor
  · intro h axis
    obtain ⟨m, v, hoffset, -⟩ := h
    exact ⟨v.get axis, hoffset axis⟩
  · intro h
    choose d hd using h
    refine ⟨_, .ofFn d, fun axis => ?_, rfl⟩
    rw [Vec3.get_ofFn]
    exact hd axis

/-- **Aligned nodes land on their targets.** An alignment succeeds just if each axis has one
target at most and the sides that its target reads are known. On each axis what has a target
is then there, an axis without a target reads what it read before, and the two edges of an
axis are moved by one distance, unknown ones staying unknown with their faults. -/
theorem align_lands (n : Node ℚ) (a : Alignment ℚ) :
    ((∃ m, n.align a = .ok m) ↔ ∀ axis, (a.get axis).IsClear ∧
      ∀ side ∈ (a.get axis).sides, ∃ c, n.extents.get (.on axis side) = .ok c) ∧
    ∀ m, n.align a = .ok m → ∀ axis,
      (a.get axis).Reached axis m.extents ∧
      ((a.get axis).IsFree →
        ∀ side, m.extents.get (.on axis side) = n.extents.get (.on axis side)) ∧
      ∃ distance, ∀ side, m.extents.get (.on axis side)
        = (n.extents.get (.on axis side)).map (· + distance) := by
  constructor
  · rw [exists_align_iff]
    exact forall_congr' fun axis => Target.exists_offset_iff
  · intro m hm axis
    obtain ⟨v, hoffset, rfl⟩ := align_eq_ok.mp hm
    have hmoved := movedTo_translate n v axis
    refine ⟨Target.reached_of_offset (hoffset axis) hmoved, fun hfree => ?_, v.get axis, hmoved⟩
    have hzero : v.get axis = 0 :=
      Except.ok.inj ((hoffset axis).symm.trans (Target.offset_of_isFree hfree axis _))
    rwa [hzero, Extents.movedTo_zero] at hmoved

/-! A text, of which the left and the lower edge are known, put beside the origin. -/

/-- A text that is moved out by one. -/
def sign (offset : Vec3 ℚ) : Node ℚ :=
  .apply {} (.translate offset) [.leaf {} (.text { text := "on", size := 10 })]

/-- The left edge is to be at five, and the middle of the height at three. -/
def besideOrigin : Alignment ℚ := (Alignment.free.edge .left 5).center .z 3

/-- The sign goes where its left edge and its middle are to be, the front is as unknown as
before, and where its right edge is to be it cannot go. -/
theorem align_lands_sign :
    (sign ⟨1, 0, 0⟩).align besideOrigin = .ok (sign ⟨5, 0, 3⟩) ∧
      (sign ⟨5, 0, 3⟩).extents.get .left = .ok 5 ∧
      (sign ⟨5, 0, 3⟩).extents.middle .z = .ok 3 ∧
      (sign ⟨5, 0, 3⟩).extents.get .front = (sign ⟨1, 0, 0⟩).extents.get .front ∧
      ¬ ∃ m, (sign ⟨1, 0, 0⟩).align (Alignment.free.edge .right 0) = .ok m := by
  have halign : (sign ⟨1, 0, 0⟩).align besideOrigin = .ok (sign ⟨5, 0, 3⟩) := by
    refine align_eq_ok.mpr ⟨⟨4, 0, 3⟩, by decide +kernel, ?_⟩
    have hsum : (⟨5, 0, 3⟩ : Vec3 ℚ) = ⟨4, 0, 3⟩ + ⟨1, 0, 0⟩ := by decide +kernel
    have hzero : (⟨4, 0, 3⟩ : Vec3 ℚ).isZero = false := by decide +kernel
    rw [hsum, translate, hzero]
    rfl
  obtain ⟨-, hlands⟩ := align_lands (sign ⟨1, 0, 0⟩) besideOrigin
  have hplaced := hlands _ halign
  refine ⟨halign, (hplaced .x).1.1 5 rfl, (hplaced .z).1.2.1 3 rfl,
    (hplaced .y).2.1 ⟨rfl, rfl, rfl⟩ .max, fun h => ?_⟩
  have hsucceeds := (align_lands (sign ⟨1, 0, 0⟩) (Alignment.free.edge .right 0)).1.mp h
  obtain ⟨c, hc⟩ := (hsucceeds .x).2 .max (by decide)
  cases hc

end Node

end SolidTree
