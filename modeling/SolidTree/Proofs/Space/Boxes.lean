/-
  SolidTree.Proofs.Space.Boxes
  ────────────────────────────
  **BOXES ARE EXACT.**

  By induction on the tree, no point of it is beyond an edge that is known,
  and where nothing is cut away there is a point on each.  Cutting and
  overlapping can remove the points that an edge was read from, and so can
  paths that leave out a point of a polygon; neither lets a point out.

  Main results:
    * `extents_exact` — the known edges of a measured tree
    * `stray_point_extents` — a polygon that does not use all of its points
-/
import SolidTree.Proofs.Space.Shapes
import SolidTree.Proofs.Tree.Everywhere
import SolidTree.Proofs.Tree.Readings

namespace SolidTree

/-! ## §1. Several elements. -/

section Elements

variable {ι : Type} {ns : List ι} {x : ι → Extents ℚ} {S : ι → Set Point}

theorem encloses_union (h : ∀ n ∈ ns, Encloses (x n).get (S n)) :
    Encloses (Extents.union (ns.map x)).get (joined (ns.map S)) := by
  rintro e v hv p ⟨_, hS, hp⟩
  obtain ⟨n, hn, rfl⟩ := List.mem_map.mp hS
  rw [Extents.get_union, List.map_map] at hv
  have hne : ns.map ((·.get e) ∘ x) ≠ [] := List.ne_nil_of_mem (List.mem_map_of_mem hn)
  obtain ⟨w, hw, hwithin⟩ := (Extents.outermost_spec hne hv).2 _ (List.mem_map_of_mem hn)
  exact (Side.within_cast.mpr hwithin).trans (h n hn e w hw p hp)

theorem touches_union (hne : ns ≠ []) (h : ∀ n ∈ ns, Touches (x n).get (S n)) :
    Touches (Extents.union (ns.map x)).get (joined (ns.map S)) := by
  constructor
  · obtain ⟨n, hn⟩ := List.exists_mem_of_ne_nil ns hne
    obtain ⟨p, hp⟩ := (h n hn).1
    exact ⟨p, S n, List.mem_map_of_mem hn, hp⟩
  · intro e v hv
    rw [Extents.get_union, List.map_map] at hv
    have hne' : ns.map ((·.get e) ∘ x) ≠ [] := by simpa using hne
    obtain ⟨n, hn, hread⟩ := List.mem_map.mp (Extents.outermost_spec hne' hv).1
    obtain ⟨p, hp, hon⟩ := (h n hn).2 e v hread
    exact ⟨p, ⟨S n, List.mem_map_of_mem hn, hp⟩, hon⟩

/-- A sum of readings is known iff all are. -/
theorem summedReading_eq_ok {readings : List (Reading ℚ)} {v : ℚ}
    (h : Operator.summedReading readings = .ok v) :
    ∃ vs : List ℚ, readings = vs.map .ok ∧ v = vs.sum := by
  have hfold : ∀ (rest : List ℚ) (a : ℚ), rest.foldl (· + ·) a = a + rest.sum := by
    intro rest
    induction rest with
    | nil => simp
    | cons b rest ih =>
      intro a
      rw [List.foldl_cons, ih, List.sum_cons, add_assoc]
  obtain ⟨vs, hvs, hresult⟩ := Outcome.bind_eq_ok.mp h
  refine ⟨vs, Outcome.mapM_id_eq_ok.mp hvs, ?_⟩
  cases vs with
  | nil => exact (Except.ok.inj hresult).symm
  | cons a rest =>
    rw [List.sum_cons, ← hfold]
    exact (Except.ok.inj hresult).symm

theorem encloses_summed (h : ∀ n ∈ ns, Encloses (x n).get (S n)) :
    Encloses (fun e => Operator.summedReading (ns.map fun n => (x n).get e))
      (summed (ns.map S)) := by
  intro e v hv
  obtain ⟨vs, hvs, rfl⟩ := summedReading_eq_ok hv
  clear hv
  -- The induction is on the operands, for the known readings that belong to them.
  induction ns generalizing vs with
  | nil =>
    obtain rfl : vs = [] := by simpa using hvs
    rintro p rfl
    rw [List.sum_nil, Rat.cast_zero]
    exact e.side.within_refl 0
  | cons n rest ih =>
    cases vs with
    | nil => cases hvs
    | cons v vs =>
      obtain ⟨hread, hrest⟩ := List.cons.inj hvs
      rintro _ ⟨p, hp, q, hq, rfl⟩
      rw [List.sum_cons, Rat.cast_add]
      exact (h n List.mem_cons_self e v hread p hp).add
        (ih (fun m hm => h m (List.mem_cons_of_mem n hm)) vs hrest q hq)

theorem summed_nonempty (h : ∀ n ∈ ns, (S n).Nonempty) : (summed (ns.map S)).Nonempty := by
  induction ns with
  | nil => exact ⟨0, rfl⟩
  | cons n rest ih =>
    exact (h n List.mem_cons_self).image2 (ih fun m hm => h m (List.mem_cons_of_mem n hm))

theorem touches_summed (h : ∀ n ∈ ns, Touches (x n).get (S n)) :
    Touches (fun e => Operator.summedReading (ns.map fun n => (x n).get e))
      (summed (ns.map S)) := by
  constructor
  · exact summed_nonempty fun n hn => (h n hn).1
  · intro e v hv
    obtain ⟨vs, hvs, rfl⟩ := summedReading_eq_ok hv
    clear hv
    induction ns generalizing vs with
    | nil =>
      obtain rfl : vs = [] := by simpa using hvs
      exact ⟨0, rfl, Rat.cast_zero.symm⟩
    | cons n rest ih =>
      cases vs with
      | nil => cases hvs
      | cons v vs =>
        obtain ⟨hread, hrest⟩ := List.cons.inj hvs
        obtain ⟨p, hp, hpon⟩ := (h n List.mem_cons_self).2 e v hread
        obtain ⟨q, hq, hqon⟩ := ih (fun m hm => h m (List.mem_cons_of_mem n hm)) vs hrest
        refine ⟨p + q, ⟨p, hp, q, hq, rfl⟩, ?_⟩
        rw [List.sum_cons, Rat.cast_add, ← hpon, ← hqon]
        rfl

/-- A set operation keeps what it does within the edges that it reads. -/
theorem encloses_compose (op : SetOperation) (h : ∀ n ∈ ns, Encloses (x n).get (S n)) :
    Encloses (Extents.compose op (ns.map x)).get (op.act (ns.map S)) := by
  cases op with
  | union =>
    rw [SetOperation.act_union]
    exact encloses_union h
  | difference =>
    cases ns with
    | nil =>
      intro e v hv
      cases e <;> cases hv
    | cons first rest =>
      -- The edges are those of the first operand, and cutting only removes points of it.
      exact (h first List.mem_cons_self).subset Set.sdiff_subset
  | intersection =>
    cases ns with
    | nil =>
      intro e v hv
      cases e <;> cases hv
    | cons first rest =>
      rw [SetOperation.act_intersection]
      -- The edge is that of one operand, and the point is in that one too.
      intro e v hv p hp
      have hread : (Extents.intersection ((first :: rest).map x)).get e = .ok v := hv
      rw [Extents.get_intersection, List.map_map] at hread
      have hmem : .ok v ∈ (first :: rest).map ((·.get e) ∘ x) :=
        (Extents.innermost_spec (List.cons_ne_nil _ _) hread).1
      obtain ⟨n, hn, hv⟩ := List.mem_map.mp hmem
      exact h n hn e v hv p (hp (S n) (List.mem_map_of_mem hn))

end Elements

/-! ## §2. Trees. -/

namespace Node

/-- The node is of a kind whose box is about points, it has something to measure, and no
size of it is negative. -/
def IsMeasured : Node ℚ → Prop
  | .leaf _ shape => shape.IsMeasured
  | .apply _ op children => op.IsMeasured ∧ children ≠ []
  | .compose _ _ operands => operands ≠ []
  | .part _ members => members.children ≠ []

/-- The node leaves no point out that an edge may be read from. -/
def KeepsPoints : Node ℚ → Prop
  | .leaf _ shape => shape.UsesPoints
  | .compose _ op _ => op = .union
  | _ => True

variable (I : Interpretation) {n : Node ℚ}

/-- The readings of a sum are the sums of the readings. -/
theorem minkowski_reading (child : Edge → Reading ℚ) (children : List (Node ℚ)) :
    Operator.minkowski.reading child (children.map extents)
      = fun e => Operator.summedReading (children.map fun n => n.extents.get e) := by
  funext e
  show Operator.summedReading ((children.map extents).map (·.get e)) = _
  rw [List.map_map]
  rfl

/-- No point of a measured tree is beyond a known edge. -/
theorem encloses_extents (h : n.Everywhere counted IsMeasured) :
    Encloses n.extents.get (n.points I) := by
  induction h with
  | @intro n here there ih =>
    cases n with
    | leaf tag shape =>
      have hget : shape.extents.get = shape.reading := funext fun e => Extents.get_ofFn _ e
      show Encloses shape.extents.get (shape.points I)
      rw [hget]
      exact Primitive.encloses_shape I here
    | apply tag op children =>
      obtain ⟨hop, hne⟩ := here
      rw [extents_apply, op.get_extents (by simpa using hne), points_apply]
      by_cases hsum : op = .minkowski
      · subst hsum
        rw [minkowski_reading]
        exact encloses_summed ih
      · rw [Operator.points_eq_act I hsum]
        exact encloses_reading I hop hsum _ (encloses_union ih)
    | compose tag op operands =>
      rw [extents_compose, points_compose]
      exact encloses_compose op ih
    | part tag members =>
      rw [extents_part, points_part]
      exact encloses_union fun s hs => ih s.node (List.mem_map_of_mem hs)

/-- A measured tree that keeps its points has one on each known edge. -/
theorem touches_extents (h : n.Everywhere counted IsMeasured)
    (hkeeps : n.Everywhere counted KeepsPoints) : Touches n.extents.get (n.points I) := by
  induction h with
  | @intro n here there ih =>
    -- Both properties are needed of every counted node, so the second goes along.
    have hbelow : ∀ c ∈ n.counted, Touches c.extents.get (c.points I) :=
      fun c hc => ih c hc (hkeeps.there c hc)
    cases n with
    | leaf tag shape =>
      have hget : shape.extents.get = shape.reading := funext fun e => Extents.get_ofFn _ e
      show Touches shape.extents.get (shape.points I)
      rw [hget]
      exact Primitive.touches_shape I here hkeeps.here
    | apply tag op children =>
      obtain ⟨hop, hne⟩ := here
      rw [extents_apply, op.get_extents (by simpa using hne), points_apply]
      by_cases hsum : op = .minkowski
      · subst hsum
        rw [minkowski_reading]
        exact touches_summed hbelow
      · rw [Operator.points_eq_act I hsum]
        exact touches_reading I hop hsum _ (touches_union hne hbelow)
    | compose tag op operands =>
      obtain rfl : op = .union := hkeeps.here
      rw [extents_compose, points_compose, SetOperation.act_union]
      exact touches_union here hbelow
    | part tag members =>
      rw [extents_part, points_part]
      exact touches_union here fun s hs => hbelow s.node (List.mem_map_of_mem hs)

end Node

/-- **Boxes are exact.** On every edge of a measured tree that is known, no point of the
tree is beyond it; and if the tree has neither differences nor intersections, and its
polygons and polyhedra use all of their points, then some point of the tree is on it. -/
theorem extents_exact (I : Interpretation) {n : Node ℚ}
    (h : n.Everywhere Node.counted Node.IsMeasured) {e : Edge} {v : ℚ}
    (hv : n.extents.get e = .ok v) :
    (∀ p ∈ n.points I, e.side.Within (v : ℝ) (p e.axis)) ∧
      (n.Everywhere Node.counted Node.KeepsPoints → ∃ p ∈ n.points I, p e.axis = (v : ℝ)) :=
  ⟨Node.encloses_extents I h e v hv, fun hkeeps => (Node.touches_extents I h hkeeps).2 e v hv⟩

/-! A tree whose triangle is filled, and a triangle with a point too many. -/

/-- Polygons and polyhedra are convex, and there is nothing else. -/
def convexInterpretation : Interpretation where
  shape s := match s.corners? with
    | some corners => convexHull ℝ {c | c ∈ corners}
    | none => ∅
  operator _ _ := ∅
  corner_mem h c hc := by
    rw [h]
    exact subset_convexHull ℝ _ hc
  subset_hull h := by
    rw [h]

/-- The sum of a turned triangle and of a ball that is moved and stretched backwards. -/
def stretched : Node ℚ :=
  .apply {} .minkowski
    [.apply {} (.rotate ⟨0, 0, 90⟩) [.leaf {} (.polygon [⟨0, 0⟩, ⟨4, 0⟩, ⟨0, 2⟩] none none)],
      .apply {} (.scale ⟨-2, 1, 1⟩) [.apply {} (.translate ⟨1, 0, 0⟩) [.leaf {} (.sphere 2 8)]]]

theorem extents_exact_stretched :
    stretched.extents.get .left = .ok (-6) ∧
      (∀ p ∈ stretched.points convexInterpretation, ((-6 : ℚ) : ℝ) ≤ p .x) ∧
      ∃ p ∈ stretched.points convexInterpretation, p .x = ((-6 : ℚ) : ℝ) := by
  have hmeasured : stretched.Everywhere Node.counted Node.IsMeasured := by
    repeat' first
      | exact ⟨trivial, List.cons_ne_nil _ _⟩
      | exact List.cons_ne_nil _ _
      | exact List.forall_mem_nil _
      | refine .intro ?_ ?_
      | refine List.forall_mem_cons.mpr ⟨?_, ?_⟩
    show (0 : ℚ) ≤ 2
    norm_num
  have hkeeps : stretched.Everywhere Node.counted Node.KeepsPoints := by
    repeat' first
      | exact trivial
      | exact List.forall_mem_nil _
      | refine .intro ?_ ?_
      | refine List.forall_mem_cons.mpr ⟨?_, ?_⟩
    · rintro corners h c hc
      cases h
      exact hc
    · rintro corners h
      cases h
  have hleft : stretched.extents.get .left = .ok (-6) := by decide +kernel
  have hexact := extents_exact convexInterpretation hmeasured hleft
  exact ⟨hleft, hexact.1, hexact.2 hkeeps⟩

/-- A triangle whose only path leaves the last of the points out. -/
def strayPoint : Node ℚ :=
  .leaf {} (.polygon [⟨0, 0⟩, ⟨1, 0⟩, ⟨0, 1⟩, ⟨10, 10⟩] (some [[0, 1, 2]]) none)

/-- **A point that no path names counts.** The right edge of the triangle is where the point
is, and however the triangle is filled, it ends far from there. -/
theorem stray_point_extents :
    strayPoint.Everywhere Node.counted Node.IsMeasured ∧
      strayPoint.extents.get .right = .ok 10 ∧
      ∀ I : Interpretation, ∀ p ∈ strayPoint.points I, p .x ≤ 1 := by
  refine ⟨.intro (List.cons_ne_nil _ _) (List.forall_mem_nil _), by decide +kernel, ?_⟩
  intro I p hp
  have hcorners : (convexHull ℝ {c : Point | c ∈ [Vec2.point ⟨0, 0⟩, Vec2.point ⟨1, 0⟩,
      Vec2.point ⟨0, 1⟩]}) ⊆ {p : Point | p .x ≤ 1} := by
    refine convexHull_min ?_ (convex_halfSpace_le ⟨fun _ _ => rfl, fun _ _ => rfl⟩ 1)
    intro c hc
    rcases List.mem_cons.mp hc with rfl | hc
    · simp [Vec2.point]
    · rcases List.mem_pair.mp hc with rfl | rfl <;> simp [Vec2.point]
  exact hcorners (I.subset_hull rfl hp)

end SolidTree
