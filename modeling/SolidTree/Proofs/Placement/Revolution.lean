/-
  SolidTree.Proofs.Placement.Revolution
  ─────────────────────────────────────
  **REVOLUTIONS STAND AT THEIR HEIGHT.**

  The depth of a profile becomes the height of what it sweeps, if the profile
  reaches the X axis; one that is all behind the axis or all in front of it
  is measured up to there.  Quarter turns about Z and moves keep the height,
  and then the bottom is put in place.

      x.Outline l r b f   — the four edges around a flat node
      o.heights d         — the span on Z of a profile with depth `d`

  The depth takes part in that span, so it is compared with the other
  quantities, and they agree if they are close.  The top stands where the
  solved span ends if they agree exactly, and close to it if they do not.

  Main results:
    * `fills_revolveOn`  — the height that is measured, from the solved bottom on
    * `revolveOn_lands`  — bottom and top, for a profile that reaches the X axis
-/
import SolidTree.Proofs.Placement.Extrusion

namespace SolidTree

/-! ## §1. Profiles. -/

/-- The four edges around a flat node are known. -/
structure Extents.Outline (x : Extents ℚ) (left right back front : ℚ) : Prop where
  left : x.get .left = .ok left
  right : x.get .right = .ok right
  back : x.get .back = .ok back
  front : x.get .front = .ok front

/-- A move along X moves two of the edges. -/
theorem Node.outline_translateOn {n : Node ℚ} {left right back front : ℚ}
    (h : n.extents.Outline left right back front) (d : ℚ) :
    (n.translateOn .x d).extents.Outline (left + d) (right + d) back front := by
  have hx : n.extents.MovedTo (n.translateOn .x d).extents .x d := movedTo_translate n _ .x
  have hy : n.extents.MovedTo (n.translateOn .x d).extents .y 0 := movedTo_translate n _ .y
  rw [Extents.movedTo_zero] at hy
  exact {
    left := (hx .min).trans (congrArg (Except.map (· + d)) h.left)
    right := (hx .max).trans (congrArg (Except.map (· + d)) h.right)
    back := (hy .min).trans h.back
    front := (hy .max).trans h.front }

/-! ## §2. Heights. -/

namespace RevolveOptions

/-- The heights that a profile of some depth covers. -/
def heights (o : RevolveOptions ℚ) (depth : ℚ) : SpanSpec ℚ := { o.z with distance? := some depth }

end RevolveOptions

namespace Node

variable {n : Node ℚ} {left right back front : ℚ}

/-- A swept profile is measured from its back edge to its front edge, and if it does not reach
the X axis then up to there. -/
theorem fills_rotationalExtrude (h : n.extents.Outline left right back front)
    (hapart : ¬ (left < 0 ∧ 0 < right)) (angle : ℚ) (convexity segments : Option UInt32) :
    (n.rotationalExtrude angle convexity segments).extents.Fills .z (Scalar.lesser back 0)
      (Scalar.greater front 0 - Scalar.lesser back 0) := by
  have hget : (n.rotationalExtrude angle convexity segments).extents.get
      = Operator.revolvedReading angle n.extents.get :=
    get_extents_transform nofun fun _ _ h => nomatch h.1
  unfold Extents.Fills
  rw [hget, add_sub_cancel]
  unfold Operator.revolvedReading
  rw [h.left, h.right]
  show (if left < 0 ∧ 0 < right then _ else _) = _ ∧ (if left < 0 ∧ 0 < right then _ else _) = _
  rw [if_neg hapart, if_neg hapart]
  exact ⟨Outcome.bind_eq_ok.mpr ⟨back, h.back, rfl⟩, Outcome.bind_eq_ok.mpr ⟨front, h.front, rfl⟩⟩

/-- **A revolution stands on the bottom of its heights**, as high as its profile and the X axis
are deep together. -/
theorem fills_revolveOn (h : n.extents.Outline left right back front) {o : RevolveOptions ℚ}
    (hapart : ¬ (left + o.radius < 0 ∧ 0 < right + o.radius)) {k : ℤ} {sweep : ℚ}
    (hsweep : o.sweep = .ok (k * 90, sweep)) {z : Span ℚ}
    (hz : (o.heights (front - back)).resolve = .ok z) :
    ∃ m, n.revolveOn o = .ok m ∧
      m.extents.Fills .z z.start (Scalar.greater front 0 - Scalar.lesser back 0) := by
  have hswept := fills_rotationalExtrude (outline_translateOn h o.radius) hapart sweep o.convexity
    o.segments
  generalize hn : (n.translateOn .x o.radius).rotationalExtrude sweep o.convexity o.segments = swept
    at hswept
  -- Turned about Z and moved across it, the height stays.
  have hrow : (QuarterTurn.about .z (k % 4).toNat).RowIs .z .z false := by
    intro c
    cases c <;> rfl
  have hturned := (isTurned_rotateOn swept .z k).fills hrow hswept
  have hplaced := hturned.moved
    (movedTo_translate (swept.rotateOn .z (k * 90)) ⟨o.centerX, o.centerY, 0⟩ .z)
  obtain ⟨m, hm, hfills⟩ := exists_align_fills hplaced .min z.start
  refine ⟨m, ?_, hfills⟩
  have hdepth : n.extents.span .y = .ok (front - back) :=
    Extents.span_eq_ok.mpr ⟨back, front, h.back, h.front, rfl⟩
  unfold revolveOn
  refine Outcome.bind_eq_ok.mpr ⟨_, hdepth, Outcome.bind_eq_ok.mpr ⟨z, hz, ?_⟩⟩
  refine Outcome.bind_eq_ok.mpr ⟨_, hsweep, ?_⟩
  rw [← hn] at hm
  exact hm

/-- **A revolution stands where it says.** Of a profile that is not on both sides of the axis,
turned by whole quarters, the bottom is where the heights start. If the profile reaches the
X axis then the top is its depth above that, which is where the heights end if all quantities
agree exactly, and close to it by the measure of the solver if they do not. -/
theorem revolveOn_lands (h : n.extents.Outline left right back front) {o : RevolveOptions ℚ}
    (hapart : ¬ (left + o.radius < 0 ∧ 0 < right + o.radius)) {k : ℤ} {sweep : ℚ}
    (hsweep : o.sweep = .ok (k * 90, sweep)) {z : Span ℚ}
    (hz : (o.heights (front - back)).resolve = .ok z) :
    ∃ m, n.revolveOn o = .ok m ∧ m.extents.get .bottom = .ok z.start ∧
      (back ≤ 0 → 0 ≤ front → ∃ top, m.extents.get .top = .ok top ∧
        top = z.start + (front - back) ∧
        |top - z.finish| ≤ 1e-9 * max (max (front - back) z.distance) 1 ∧
        ∀ c step, (o.heights (front - back)).Reads c step 0 → top = z.finish) := by
  obtain ⟨m, hm, hbottom, htop⟩ := fills_revolveOn h hapart hsweep hz
  refine ⟨m, hm, hbottom, fun hback hfront => ⟨_, htop, ?_⟩⟩
  have hhigh : Scalar.greater front 0 = front := by rw [Rational.greater_eq_max, max_eq_left hfront]
  have hlow : Scalar.lesser back 0 = back := if_pos hback
  rw [hhigh, hlow]
  obtain ⟨hsolve, hagrees⟩ := SpanSpec.resolve_eq_ok.mp hz
  have hfinish := SpanSpec.finish_eq hsolve
  have hdepth : |front - back| = front - back := abs_of_nonneg (by linarith)
  refine ⟨rfl, ?_, fun c step hreads => ?_⟩
  · have hclose := SpanSpec.close_iff.mp (hagrees.distance (front - back) rfl)
    rw [hdepth, hdepth, abs_of_nonneg (SpanSpec.distance_nonneg hsolve)] at hclose
    rwa [hfinish, add_sub_add_left_eq_sub]
  · rw [hfinish, hreads.distance_solved rfl hz, hdepth]

/-! A panel of two by two, first in the middle and then all in front of the X axis. -/

/-- A flat panel around the origin. -/
def panel : Node ℚ := .leaf {} (.square 2 2)

/-- Five from the axis, over heights that are a little more than the depth of the panel. -/
def loose : RevolveOptions ℚ where
  radius := 5
  centerX := 0
  centerY := 0
  z := { start? := some 0, finish? := some 2.000000001 }

/-- Five from the axis, with no heights given. -/
def centered : RevolveOptions ℚ where
  radius := 5
  centerX := 0
  centerY := 0

/-- The solver accepts heights that are close to the depth, and what stands on one of them does
not reach the other exactly. And a panel that is two deep is measured seven high from six in
front of the X axis. -/
theorem revolveOn_misses :
    (panel.extents.Outline (-1) 1 (-1) 1 ∧ ¬ (-1 + loose.radius < 0 ∧ 0 < 1 + loose.radius) ∧
      loose.sweep = .ok (0, 360) ∧
      (loose.heights 2).resolve = .ok ⟨0, 1.0000000005, 2.000000001, 2.000000001⟩ ∧
      ∃ m, panel.revolveOn loose = .ok m ∧ m.extents.get .top = .ok 2) ∧
    ((panel.translateOn .y 6).extents.Outline (-1) 1 5 7 ∧
      ¬ (-1 + centered.radius < 0 ∧ 0 < 1 + centered.radius) ∧ centered.sweep = .ok (0, 360) ∧
      (centered.heights 2).resolve = .ok ⟨-1, 0, 1, 2⟩ ∧
      ∃ m, (panel.translateOn .y 6).revolveOn centered = .ok m ∧
        m.extents.get .bottom = .ok (-1) ∧ m.extents.get .top = .ok 6) := by
  refine ⟨⟨?_, by decide +kernel, by decide +kernel, by decide +kernel, ?_⟩,
    ⟨?_, by decide +kernel, by decide +kernel, by decide +kernel, ?_⟩⟩
  · constructor <;> decide +kernel
  · exact Outcome.bind_eq_ok.mp (by decide +kernel)
  · constructor <;> decide +kernel
  · have hbox : ((panel.translateOn .y 6).revolveOn centered >>= fun m => do
        return (← m.extents.get .bottom, ← m.extents.get .top)) = .ok (-1, 6) := by
      decide +kernel
    obtain ⟨m, hm, hbox⟩ := Outcome.bind_eq_ok.mp hbox
    obtain ⟨bottom, hbottom, hbox⟩ := Outcome.bind_eq_ok.mp hbox
    obtain ⟨top, htop, hbox⟩ := Outcome.bind_eq_ok.mp hbox
    cases hbox
    exact ⟨m, hm, hbottom, htop⟩

/-- A quarter of a turn from ninety degrees on, up to a height of five. -/
def quarter : RevolveOptions ℚ where
  angle := { start? := some 90, finish? := some 180 }
  radius := 5
  centerX := 3
  centerY := 0
  z := { finish? := some 5 }

/-- The panel, swept by a quarter of a turn, covers the heights from three to five. -/
theorem revolveOn_lands_panel :
    panel.extents.Outline (-1) 1 (-1) 1 ∧
      ¬ (-1 + quarter.radius < 0 ∧ 0 < 1 + quarter.radius) ∧
      quarter.sweep = .ok (90, 90) ∧ (quarter.heights 2).resolve = .ok ⟨3, 4, 5, 2⟩ ∧
      ∃ m, panel.revolveOn quarter = .ok m ∧ m.extents.get .bottom = .ok 3 ∧
        m.extents.get .top = .ok 5 := by
  have hpanel : panel.extents.Outline (-1) 1 (-1) 1 := by constructor <;> decide +kernel
  have hapart : ¬ (-1 + quarter.radius < 0 ∧ 0 < 1 + quarter.radius) := by decide +kernel
  have hsweep : quarter.sweep = .ok (90, 90) := by decide +kernel
  have hdepth : (1 : ℚ) - -1 = 2 := by norm_num
  have hz : (quarter.heights (1 - -1)).resolve = .ok ⟨3, 4, 5, 2⟩ := by decide +kernel
  have hquarters : (90 : ℚ) = ((1 : ℤ) : ℚ) * 90 := by norm_num
  obtain ⟨m, hm, hbottom, htop⟩ := revolveOn_lands hpanel hapart
    (hsweep.trans (congrArg (fun a => Except.ok (a, 90)) hquarters)) hz
  obtain ⟨top, htop, -, -, hexact⟩ := htop (by norm_num) (by norm_num)
  obtain ⟨c, k, hreads⟩ := SpanSpec.exists_reads (s := quarter.heights (1 - -1)) (by decide +kernel)
  rw [hexact c k hreads] at htop
  rw [hdepth] at hz
  exact ⟨hpanel, hapart, hsweep, hz, m, hm, hbottom, htop⟩

end Node

end SolidTree
