/-
  SolidTree.Proofs.Part.Mask
  ──────────────────────────
  **THE MASK OF A PROFILE.**

  A part that is revolved hides half of its profile behind a mask.  The mask
  is a square that is sized by the box of the profile, a little larger, and is
  put in place by its right edge, which goes to the middle of the profile on
  X, and by its own middle on Y, which goes to the middle there.  So it is as
  wide as the profile while it hides only half of it, and it reaches beyond
  the profile on the other three sides.

      x.plan   — the points between the four edges around an element

  Main results:
    * `outline_mask`    — the four edges of the mask
    * `revolve_masks`   — what revolving does to a part, and when it fails
-/
import Mathlib.Data.Set.Prod
import SolidTree.Proofs.Placement.Revolution
import SolidTree.Tree.Part

namespace SolidTree

/-! ## §1. Plans. -/

namespace Extents

/-- The points of the XY plane between the four edges around an element, if these are known. -/
def plan (x : Extents ℚ) : Set (ℝ × ℝ) :=
  {c | ∃ left right back front : ℚ, x.Outline left right back front ∧
    c ∈ Set.Icc (left : ℝ) right ×ˢ Set.Icc (back : ℝ) front}

variable {x : Extents ℚ} {left right back front : ℚ}

theorem Outline.plan_eq (h : x.Outline left right back front) :
    x.plan = Set.Icc (left : ℝ) right ×ˢ Set.Icc (back : ℝ) front := by
  ext c
  constructor
  · rintro ⟨left', right', back', front', h', hc⟩
    cases h.left.symm.trans h'.left
    cases h.right.symm.trans h'.right
    cases h.back.symm.trans h'.back
    cases h.front.symm.trans h'.front
    exact hc
  · exact fun hc => ⟨left, right, back, front, h, hc⟩

/-- A length on an axis fails as one of the two edges does. -/
theorem span_eq_error {axis : Axis} {fault : Fault ℚ} (h : x.span axis = .error fault) :
    ∃ side, x.get (.on axis side) = .error fault := by
  obtain h | ⟨high, -, h⟩ := Outcome.bind_eq_error.mp h
  · exact ⟨.max, h⟩
  obtain h | ⟨low, -, h⟩ := Outcome.bind_eq_error.mp h
  · exact ⟨.min, h⟩
  · cases h

end Extents

/-! ## §2. Squares that are put in place. -/

namespace Node

/-- A square lies around the origin. -/
theorem fills_square (width depth : ℚ) :
    (Node.leaf {} (.square width depth)).extents.Fills .x (-width / 2) width ∧
      (Node.leaf {} (.square width depth)).extents.Fills .y (-depth / 2) depth := by
  have htwo : (2.0 : ℚ) = 2 := by norm_num
  have hright : -width / 2 + width = width / 2 := by ring
  have hfront : -depth / 2 + depth = depth / 2 := by ring
  unfold Extents.Fills
  rw [hright, hfront, ← htwo]
  exact ⟨⟨rfl, rfl⟩, rfl, rfl⟩

/-- A square that is put in place by its right edge and by its middle on Y. -/
theorem exists_align_square (width depth right middle : ℚ) :
    ∃ m, (Node.leaf {} (.square width depth)).align
        ((Alignment.free.edge .right right).center .y middle) = .ok m ∧
      m.extents.Outline (right - width) right (middle - depth / 2) (middle + depth / 2) := by
  let square : Node ℚ := .leaf {} (.square width depth)
  let offset : Vec3 ℚ := ⟨right - width / 2, middle, 0⟩
  obtain ⟨hwidth, hdepth⟩ := fills_square width depth
  have hmiddle : square.extents.middle .y = .ok 0 :=
    Extents.middle_eq_ok.mpr ⟨_, _, hdepth.1, hdepth.2, by ring⟩
  refine ⟨square.translate offset, align_eq_ok.mpr ⟨offset, fun axis => ?_, rfl⟩, ?_⟩
  · cases axis with
    | x =>
      have hlack : right - (-width / 2 + width) = right - width / 2 := by ring
      exact Target.offset_eq_ok.mpr (.inr (.inr (.inr ⟨right, _, rfl, hwidth.2, hlack⟩)))
    | y =>
      have hlack : middle - 0 = middle := sub_zero middle
      exact Target.offset_eq_ok.mpr (.inr (.inr (.inl ⟨middle, 0, rfl, hmiddle, hlack⟩)))
    | z => exact Target.offset_of_isFree ⟨rfl, rfl, rfl⟩ _ _
  · -- A move keeps both lengths, so the far ends follow the near ones.
    have hx := hwidth.moved (movedTo_translate square offset .x)
    have hy := hdepth.moved (movedTo_translate square offset .y)
    have hleft : -width / 2 + offset.get .x = right - width := by
      show -width / 2 + (right - width / 2) = right - width
      ring
    have hback : -depth / 2 + offset.get .y = middle - depth / 2 := by
      show -depth / 2 + middle = middle - depth / 2
      ring
    have hfront : middle - depth / 2 + depth = middle + depth / 2 := by ring
    rw [hleft] at hx
    rw [hback] at hy
    exact {
      left := hx.1
      right := hx.2.trans (congrArg Except.ok (sub_add_cancel right width))
      back := hy.1
      front := hy.2.trans (congrArg Except.ok hfront) }

end Node

/-! ## §3. Masks. -/

namespace Assembly

variable {p : Part ℚ} {left right back front : ℚ}

theorem maskMargin_nonneg : (0 : ℚ) ≤ maskMargin := by
  unfold maskMargin
  norm_num

/-- **The mask ends in the middle of the profile**, and it is larger than the profile by the
margin. -/
theorem outline_mask (h : p.extents.Outline left right back front) :
    ∃ mask, p.mask = .ok mask ∧ mask.extents.Outline
      ((right + left) / 2 - (right - left + maskMargin)) ((right + left) / 2)
      ((front + back) / 2 - (front - back + maskMargin) / 2)
      ((front + back) / 2 + (front - back + maskMargin) / 2) := by
  have hwidth : p.extents.span .x = .ok (right - left) :=
    Extents.span_eq_ok.mpr ⟨left, right, h.left, h.right, rfl⟩
  have hdepth : p.extents.span .y = .ok (front - back) :=
    Extents.span_eq_ok.mpr ⟨back, front, h.back, h.front, rfl⟩
  have hcenterX : p.extents.middle .x = .ok ((right + left) / 2) :=
    Extents.middle_eq_ok.mpr ⟨left, right, h.left, h.right, rfl⟩
  have hcenterY : p.extents.middle .y = .ok ((front + back) / 2) :=
    Extents.middle_eq_ok.mpr ⟨back, front, h.back, h.front, rfl⟩
  obtain ⟨m, hm, houtline⟩ := Node.exists_align_square (right - left + maskMargin)
    (front - back + maskMargin) ((right + left) / 2) ((front + back) / 2)
  refine ⟨m, ?_, houtline⟩
  unfold mask
  dsimp only
  rw [hwidth, hdepth, hcenterX, hcenterY]
  exact hm

/-- A part that cannot be measured all around cannot be masked. -/
theorem mask_fails {e : Edge} (he : e.axis ≠ .z) {fault : Fault ℚ}
    (h : p.extents.get e = .error fault) :
    ∃ e' fault', e'.axis ≠ .z ∧ p.extents.get e' = .error fault' ∧ p.mask = .error fault' := by
  unfold mask
  dsimp only
  cases hwidth : p.extents.span .x with
  | error fault' =>
    obtain ⟨side, hedge⟩ := Extents.span_eq_error hwidth
    refine ⟨.on .x side, fault', ?_, hedge, rfl⟩
    rw [Edge.axis_on]
    decide
  | ok width =>
    cases hdepth : p.extents.span .y with
    | error fault' =>
      obtain ⟨side, hedge⟩ := Extents.span_eq_error hdepth
      refine ⟨.on .y side, fault', ?_, hedge, rfl⟩
      rw [Edge.axis_on]
      decide
    | ok depth =>
      -- With both lengths all four edges would be known.
      obtain ⟨left, right, hleft, hright, -⟩ := Extents.span_eq_ok.mp hwidth
      obtain ⟨back, front, hback, hfront, -⟩ := Extents.span_eq_ok.mp hdepth
      cases e with
      | left => cases hleft.symm.trans h
      | right => cases hright.symm.trans h
      | back => cases hback.symm.trans h
      | front => cases hfront.symm.trans h
      | bottom | top => exact absurd rfl he

/-! ## §4. Revolved parts. -/

/-- **A revolved part is masked on one side.** If the four edges around a part are known, then
revolving it succeeds. The part has one more hole, which no field names, and besides it nothing
changes but how it is finished, nor does its box. Within the box the hole covers whatever is up
to the middle on X, and it covers nothing beyond the middle. If one of the edges is not known
then revolving fails as one of them does, and the part is as it was. -/
theorem revolve_masks (p : Part ℚ) :
    (∀ left right back front, p.extents.Outline left right back front →
      ∃ center mask q, p.extents.middle .x = .ok center ∧ revolve.run p = .ok () q ∧
        q = { p with holes := p.holes ++ [⟨none, mask⟩], finish := some (.revolve none) } ∧
        q.extents = p.extents ∧
        (∀ c ∈ p.extents.plan, c.1 ≤ (center : ℝ) → c ∈ mask.extents.plan) ∧
        ∀ c ∈ mask.extents.plan, c.1 ≤ (center : ℝ)) ∧
    ∀ e fault, e.axis ≠ .z → p.extents.get e = .error fault →
      ∃ e' fault', e'.axis ≠ .z ∧ p.extents.get e' = .error fault' ∧
        revolve.run p = .error fault' p := by
  constructor
  · intro left right back front h
    obtain ⟨mask, hmask, houtline⟩ := outline_mask h
    refine ⟨_, mask, _, Extents.middle_eq_ok.mpr ⟨left, right, h.left, h.right, rfl⟩, ?_, rfl,
      rfl, ?_, ?_⟩
    · rw [run_revolve, hmask]
      rfl
    · rw [h.plan_eq, houtline.plan_eq]
      rintro c ⟨⟨hleft, hright⟩, hback, hfront⟩ hcenter
      have hmargin : (0 : ℝ) ≤ ((maskMargin : ℚ) : ℝ) := Rat.cast_nonneg.mpr maskMargin_nonneg
      refine ⟨⟨?_, hcenter⟩, ?_, ?_⟩
      · -- The profile has a point, so it is not inverted and its width reaches past the left edge.
        push_cast
        linarith
      · push_cast
        linarith
      · push_cast
        linarith
    · rw [houtline.plan_eq]
      rintro c ⟨⟨-, hright⟩, -⟩
      exact hright
  · intro e fault he h
    obtain ⟨e', fault', he', h', hmask⟩ := mask_fails he h
    refine ⟨e', fault', he', h', ?_⟩
    rw [run_revolve, hmask]

/-! A profile off the axis that has a hole already, and a word, which nobody knows the width of. -/

/-- A flat rim with a bore. -/
def spool : Part ℚ where
  name := "Spool"
  children := [⟨some "rim", .apply {} (.translate ⟨7, -1, 0⟩) [.leaf {} (.square 20 6)]⟩]
  holes := [⟨some "bore", .leaf {} (.circle 2 8)⟩]

/-- A part that is a word. -/
def sign : Part ℚ where
  name := "Sign"
  children := [⟨none, .leaf {} (.text { text := "on", size := 10 })⟩]

/-- The spool gets a second hole, which reaches from its left end to its middle at seven. The sign
is left alone. -/
theorem revolve_masks_spool :
    spool.extents.Outline (-3) 17 (-4) 2 ∧
      (∃ mask q, revolve.run spool = .ok () q ∧ q.holes = spool.holes ++ [⟨none, mask⟩] ∧
        q.children = spool.children ∧ q.extents.get .right = .ok 17 ∧
        ((-3 : ℝ), (2 : ℝ)) ∈ mask.extents.plan ∧ ((8 : ℝ), (0 : ℝ)) ∉ mask.extents.plan) ∧
      sign.extents.get .right = .error (.undefinedExtent (.glyphs .right)) ∧
      ∃ fault, revolve.run sign = .error fault sign := by
  have houtline : spool.extents.Outline (-3) 17 (-4) 2 :=
    ⟨by decide +kernel, by decide +kernel, by decide +kernel, by decide +kernel⟩
  have hright : sign.extents.get .right = .error (.undefinedExtent (.glyphs .right)) := by
    decide +kernel
  obtain ⟨center, mask, q, hmiddle, hrun, rfl, hextents, hcovers, hends⟩ :=
    (revolve_masks spool).1 _ _ _ _ houtline
  obtain ⟨-, fault, -, -, hfails⟩ := (revolve_masks sign).2 .right _ nofun hright
  have hcenter : spool.extents.middle .x = .ok 7 := by decide +kernel
  cases hcenter.symm.trans hmiddle
  refine ⟨houtline, ⟨mask, _, hrun, rfl, rfl, ?_, ?_, ?_⟩, hright, fault, hfails⟩
  · rw [hextents]
    exact houtline.right
  · refine hcovers _ ?_ (by norm_num)
    rw [houtline.plan_eq]
    norm_num
  · intro h
    have hx := hends _ h
    norm_num at hx

end Assembly

end SolidTree
