/-
  SolidTree.Proofs.Placement.Cuboids
  ──────────────────────────────────
  **CUBOIDS MEASURE BACK TO WHAT THEY ARE MADE FROM.**

  A cuboid is made from the box of a node or over three spans.  A solved span
  is as long as its ends are apart and has its center in the middle, so the
  cuboid over three spans is the one that fills the box between their ends;
  and a cuboid that fills a box reads as the box, inverted or not.

      BoundingBox.ofSpans   — the box between the ends of a span on each axis

  Main results:
    * `boundingNode_eq_ok`, `volume_eq_ok` — the cuboids that come out
    * `cuboids_measure_back` — when they do, and what their edges are
-/
import SolidTree.Proofs.Placement.Division
import SolidTree.Proofs.Span.Resolving

namespace SolidTree

open Outcome

/-! ## §1. Boxes of spans. -/

namespace BoundingBox

/-- The box between the ends of a span on each axis. -/
def ofSpans (spans : Vec3 (Span ℚ)) : BoundingBox ℚ := ⟨spans.map (·.start), spans.map (·.finish)⟩

variable (spans : Vec3 (Span ℚ))

@[simp] theorem get_ofSpans_min (axis : Axis) :
    (ofSpans spans).get (.on axis .min) = (spans.get axis).start := by
  cases axis <;> rfl

@[simp] theorem get_ofSpans_max (axis : Axis) :
    (ofSpans spans).get (.on axis .max) = (spans.get axis).finish := by
  cases axis <;> rfl

variable {spans}

/-- The lengths of spans are the size of the box between their ends. -/
theorem size_ofSpans (h : ∀ axis, (spans.get axis).IsProper) :
    (ofSpans spans).size = spans.map (·.distance) := by
  refine Vec3.ext_get fun axis => ?_
  rw [get_size, get_ofSpans_min, get_ofSpans_max, Vec3.get_map, (h axis).distance_eq]

/-- The centers of spans are the center of the box between their ends. -/
theorem center_ofSpans (h : ∀ axis, (spans.get axis).IsProper) :
    (ofSpans spans).center = spans.map (·.center) := by
  refine Vec3.ext_get fun axis => ?_
  rw [get_center, get_ofSpans_min, get_ofSpans_max, Vec3.get_map, (h axis).center_eq]

end BoundingBox

/-! ## §2. What comes out. -/

namespace Extents

/-- A box comes out iff each of its coordinates is read. -/
theorem box_eq_ok_iff {x : Extents ℚ} {b : BoundingBox ℚ} :
    x.box = .ok b ↔ ∀ e, x.get e = .ok (b.get e) := by
  refine ⟨fun h => ?_, box_eq_ok⟩
  simp only [box, bind_eq_ok, pure_eq_ok] at h
  obtain ⟨left, hleft, right, hright, back, hback, front, hfront, bottom, hbottom, top, htop,
    h⟩ := h
  cases h
  intro e
  cases e <;> assumption

end Extents

namespace Node

variable {n m : Node ℚ}

/-- A box is turned into a cuboid iff it is known, and then into the one that fills it. -/
theorem boundingNode_eq_ok :
    n.boundingNode = .ok m ↔ ∃ b, (∀ e, n.extents.get e = .ok (b.get e)) ∧ ofBox b = m := by
  simp only [boundingNode, bind_eq_ok, Extents.box_eq_ok_iff, pure_eq_ok, Except.ok.injEq]

/-- A cuboid over three spans comes out iff they are resolved, and then it is the one that fills
the box between their ends. -/
theorem volume_eq_ok {x y z : SpanSpec ℚ} :
    volume x y z = .ok m ↔ ∃ a b c, x.resolve = .ok a ∧ y.resolve = .ok b ∧ z.resolve = .ok c ∧
      ofBox (.ofSpans ⟨a, b, c⟩) = m := by
  have hfills {a b c : Span ℚ} (ha : x.resolve = .ok a) (hb : y.resolve = .ok b)
      (hc : z.resolve = .ok c) :
      (cube ⟨a.distance, b.distance, c.distance⟩).translate ⟨a.center, b.center, c.center⟩
        = ofBox (.ofSpans ⟨a, b, c⟩) := by
    have hproper (axis : Axis) : ((⟨a, b, c⟩ : Vec3 (Span ℚ)).get axis).IsProper := by
      cases axis with
      | x => exact SpanSpec.isProper_of_solve? (SpanSpec.resolve_eq_ok.mp ha).1
      | y => exact SpanSpec.isProper_of_solve? (SpanSpec.resolve_eq_ok.mp hb).1
      | z => exact SpanSpec.isProper_of_solve? (SpanSpec.resolve_eq_ok.mp hc).1
    rw [ofBox, BoundingBox.size_ofSpans hproper, BoundingBox.center_ofSpans hproper]
    rfl
  simp only [volume, bind_eq_ok, pure_eq_ok, Except.ok.injEq]
  constructor
  · rintro ⟨a, ha, b, hb, c, hc, rfl⟩
    exact ⟨a, b, c, ha, hb, hc, (hfills ha hb hc).symm⟩
  · rintro ⟨a, b, c, ha, hb, hc, rfl⟩
    exact ⟨a, ha, b, hb, c, hc, hfills ha hb hc⟩

/-! ## §3. Capstone. -/

/-- **Cuboids measure back to what they are made from.** The box of a node is turned into a
cuboid iff all its edges are known, and the cuboid has the same edges, also if some of them are
beyond their opposites. Three spans are turned into a cuboid iff all of them are resolved, and
its edges are the ends that are solved. -/
theorem cuboids_measure_back :
    (∀ n : Node ℚ,
      ((∃ m, n.boundingNode = .ok m) ↔ ∀ e, ∃ a, n.extents.get e = .ok a) ∧
      ∀ m, n.boundingNode = .ok m → m.extents = n.extents) ∧
    ∀ specs : Vec3 (SpanSpec ℚ),
      ((∃ m, volume specs.x specs.y specs.z = .ok m) ↔
        ∀ axis, ∃ t, (specs.get axis).resolve = .ok t) ∧
      ∀ m, volume specs.x specs.y specs.z = .ok m → ∀ axis,
        ∃ t, (specs.get axis).resolve = .ok t ∧
          m.extents.get (.on axis .min) = .ok t.start ∧
          m.extents.get (.on axis .max) = .ok t.finish := by
  refine ⟨fun n => ⟨⟨?_, ?_⟩, ?_⟩, fun specs => ⟨⟨?_, ?_⟩, ?_⟩⟩
  · rintro ⟨m, hm⟩ e
    obtain ⟨b, hb, -⟩ := boundingNode_eq_ok.mp hm
    exact ⟨_, hb e⟩
  · intro hknown
    choose coordinate hcoordinate using hknown
    refine ⟨_, boundingNode_eq_ok.mpr ⟨.ofFn coordinate, fun e => ?_, rfl⟩⟩
    rw [hcoordinate e, BoundingBox.get_ofFn]
  · intro m hm
    obtain ⟨b, hb, rfl⟩ := boundingNode_eq_ok.mp hm
    exact Extents.ext_get fun e => (get_extents_ofBox b e).trans (hb e).symm
  · rintro ⟨m, hm⟩ axis
    obtain ⟨a, b, c, ha, hb, hc, -⟩ := volume_eq_ok.mp hm
    cases axis with
    | x => exact ⟨a, ha⟩
    | y => exact ⟨b, hb⟩
    | z => exact ⟨c, hc⟩
  · intro hresolved
    obtain ⟨a, ha⟩ := hresolved .x
    obtain ⟨b, hb⟩ := hresolved .y
    obtain ⟨c, hc⟩ := hresolved .z
    exact ⟨_, volume_eq_ok.mpr ⟨a, b, c, ha, hb, hc, rfl⟩⟩
  · intro m hm axis
    obtain ⟨a, b, c, ha, hb, hc, rfl⟩ := volume_eq_ok.mp hm
    refine ⟨(⟨a, b, c⟩ : Vec3 (Span ℚ)).get axis, ?_, ?_, ?_⟩
    · cases axis <;> assumption
    · rw [get_extents_ofBox, BoundingBox.get_ofSpans_min]
    · rw [get_extents_ofBox, BoundingBox.get_ofSpans_max]

/-! Two boxes that are apart, and three spans of which each is given in another way. -/

/-- Two unit cubes with a gap between them, and nothing in common. -/
def cubesApart : Node ℚ :=
  .compose {} .intersection
    [cube ⟨1, 1, 1⟩, .apply {} (.translate ⟨5, 0, 0⟩) [cube ⟨1, 1, 1⟩]]

/-- A start and a finish in descending order, a lone length, and a center with an end. -/
def mixedSpecs : Vec3 (SpanSpec ℚ) where
  x := { start? := some 7, finish? := some 3 }
  y := { distance? := some (-4) }
  z := { center? := some 2, finish? := some 5 }

/-- The cuboid of an inverted box is inverted alike, and the one over the spans ascends. -/
theorem cuboids_measure_back_inverted :
    (∃ m, cubesApart.boundingNode = .ok m ∧
      m.extents.get .left = .ok (9 / 2) ∧ m.extents.get .right = .ok (1 / 2)) ∧
    ∃ m, volume mixedSpecs.x mixedSpecs.y mixedSpecs.z = .ok m ∧
      m.extents.get .left = .ok 3 ∧ m.extents.get .right = .ok 7 ∧
      m.extents.get .bottom = .ok (-1) ∧ m.extents.get .top = .ok 5 := by
  constructor
  · obtain ⟨hiff, hback⟩ := cuboids_measure_back.1 cubesApart
    obtain ⟨m, hm⟩ := hiff.mpr fun e => by cases e <;> exact ⟨_, rfl⟩
    refine ⟨m, hm, ?_, ?_⟩
    · rw [hback m hm]
      decide +kernel
    · rw [hback m hm]
      decide +kernel
  · obtain ⟨hiff, hback⟩ := cuboids_measure_back.2 mixedSpecs
    have hx : mixedSpecs.x.resolve = .ok ⟨3, 5, 7, 4⟩ := by decide +kernel
    have hy : mixedSpecs.y.resolve = .ok ⟨-2, 0, 2, 4⟩ := by decide +kernel
    have hz : mixedSpecs.z.resolve = .ok ⟨-1, 2, 5, 6⟩ := by decide +kernel
    obtain ⟨m, hm⟩ := hiff.mpr fun axis => by
      cases axis with
      | x => exact ⟨_, hx⟩
      | y => exact ⟨_, hy⟩
      | z => exact ⟨_, hz⟩
    obtain ⟨t, ht, hleft, hright⟩ := hback m hm .x
    obtain ⟨u, hu, hbottom, htop⟩ := hback m hm .z
    obtain rfl := Except.ok.inj (ht.symm.trans hx)
    obtain rfl := Except.ok.inj (hu.symm.trans hz)
    exact ⟨m, hm, hleft, hright, hbottom, htop⟩

end Node

end SolidTree
