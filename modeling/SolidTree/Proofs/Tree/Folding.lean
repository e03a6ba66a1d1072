/-
  SolidTree.Proofs.Tree.Folding
  ─────────────────────────────
  **FOLDED TREES HAVE THE SAME EXTENTS.**

  Wrapping a node in an operator rewrites the tree in two ways: an operator
  merges with one of its kind, and takes over the operands of a plain union.
  `transform_cases` says what can come out; each way is then compared with
  the operator over the node as it is.

      taken over  — the same readings, except that `minkowski` tells several
                    operands apart
      translated  — the same readings
      rotated     — the same coordinates where both sides have one; the
                    tolerance alone decides on which side there is one

  Main results:
    * `extents_transform` — folding keeps the readings
    * `transform_changes_extents` — what its conditions leave out
-/
import SolidTree.Proofs.Rotation.Accepted
import SolidTree.Proofs.Rotation.Merging
import SolidTree.Proofs.Tree.Everywhere
import SolidTree.Proofs.Tree.Readings
import SolidTree.Tree.Transform

namespace SolidTree

/-! ## §1. Operands that are taken over. -/

/-- An operator over a union reads what it reads over the operands. Only `minkowski` looks
at them one by one, and then there may be one. -/
theorem Operator.extents_union {α : Type} [Scalar α] (op : Operator α) {xs : List (Extents α)}
    (hne : xs ≠ []) (hone : op = .minkowski → xs.length < 2) :
    op.extents [.union xs] = op.extents xs := by
  refine Extents.ext_get fun e => ?_
  rw [get_extents op (List.cons_ne_nil _ _), get_extents op hne, Extents.union_singleton]
  cases op with
  | minkowski =>
    obtain ⟨x, rfl⟩ : ∃ x, xs = [x] := by
      have hpos := List.length_pos_of_ne_nil hne
      have hlength := hone rfl
      exact List.length_eq_one_iff.mp (by omega)
    rw [Extents.union_singleton]
  | offset r _ _ => cases r <;> rfl
  -- All other readings are made of the union alone, which is the same on both sides.
  | _ => rfl

/-! ## §2. Translations. -/

/-- Two translations read what one by the sum of the offsets reads. -/
theorem extents_translate_add (v w : Vec3 ℚ) (xs : List (Extents ℚ)) :
    (Operator.translate (v + w)).extents xs
      = (Operator.translate v).extents [(Operator.translate w).extents xs] := by
  refine Extents.ext_get fun e => ?_
  rw [Operator.get_extents _ (List.cons_ne_nil _ _), Extents.union_singleton]
  cases xs with
  | nil => cases e <;> rfl
  | cons x rest =>
    rw [Operator.get_extents _ (List.cons_ne_nil _ _)]
    unfold Operator.reading
    rw [Operator.get_extents _ (List.cons_ne_nil _ _)]
    unfold Operator.reading
    cases (Extents.union (x :: rest)).get e with
    | error fault => rfl
    | ok a =>
      have hget : (v + w).get e.axis = v.get e.axis + w.get e.axis :=
        Vec3.get_zipWith _ v w e.axis
      show Except.ok (a + (v + w).get e.axis) = Except.ok (a + w.get e.axis + v.get e.axis)
      rw [hget]
      congr 1
      ring

/-! ## §3. Rotations. -/

section Rotations

open QuarterTurn

/-- A rotation has a coordinate iff it is accepted and the source of the edge has one. -/
theorem rotate_get_eq_ok {a : Vec3 ℚ} {xs : List (Extents ℚ)} {e : Edge} {v : ℚ} :
    ((Operator.rotate a).extents xs).get e = .ok v ↔
      xs ≠ [] ∧ ∃ t, ofDegrees a = .ok t ∧ t.reading (Extents.union xs).get e = .ok v := by
  cases xs with
  | nil =>
    refine iff_of_false (fun h => ?_) fun h => h.1 rfl
    cases e <;> cases h
  | cons x rest =>
    rw [Operator.get_extents _ (List.cons_ne_nil _ _)]
    show (ofDegrees a >>= fun t => t.reading (Extents.union (x :: rest)).get e) = .ok v ↔ _
    rw [Outcome.bind_eq_ok]
    exact ⟨fun h => ⟨List.cons_ne_nil _ _, h⟩, fun h => h.2⟩

/-- The readings of an accepted rotation are those of its turn. -/
theorem rotate_get_of_accepted {α : Type} [Scalar α] {a : Vec3 α} {t : QuarterTurn}
    (h : ofDegrees a = .ok t) {xs : List (Extents α)} (hne : xs ≠ []) :
    ((Operator.rotate a).extents xs).get = t.reading (Extents.union xs).get := by
  funext e
  rw [Operator.get_extents _ hne]
  show (ofDegrees a >>= fun t => t.reading (Extents.union xs).get e) = _
  rw [h]
  rfl

/-- A rotation that is refused has no reading, whatever its operands have. -/
theorem rotate_get_of_refused {α : Type} [Scalar α] {a : Vec3 α} (h : ¬ Accepts a)
    {xs : List (Extents α)} (hne : xs ≠ []) (e : Edge) :
    ((Operator.rotate a).extents xs).get e = .error (.unsupportedTransform (.rotation a)) := by
  rw [Operator.get_extents _ hne]
  show (ofDegrees a >>= fun t => t.reading (Extents.union xs).get e) = _
  rw [ofDegrees_eq_error h]
  rfl

/-- A rotation of a rotation has a coordinate iff both are accepted and the source of the
edge under the outer turn after the inner one has one. -/
theorem rotate_rotate_get_eq_ok {a b : Vec3 ℚ} {xs : List (Extents ℚ)} {e : Edge} {v : ℚ} :
    ((Operator.rotate a).extents [(Operator.rotate b).extents xs]).get e = .ok v ↔
      xs ≠ [] ∧ ∃ s t, ofDegrees a = .ok s ∧ ofDegrees b = .ok t ∧
        (s.after t).reading (Extents.union xs).get e = .ok v := by
  rw [rotate_get_eq_ok, Extents.union_singleton]
  constructor
  · rintro ⟨-, s, hs, hv⟩
    -- The outer turn reads the inner one at some edge, so that is accepted as well.
    obtain ⟨column, negated, hrow⟩ := isAxial_ofDegrees hs e.axis
    have hsource := hv
    rw [reading_of_row hrow] at hsource
    obtain ⟨w, hw, -⟩ := Outcome.map_eq_ok.mp hsource
    obtain ⟨hne, t, ht, -⟩ := rotate_get_eq_ok.mp hw
    rw [rotate_get_of_accepted ht hne,
      ← reading_after (isAxial_ofDegrees hs) (isAxial_ofDegrees ht)] at hv
    exact ⟨hne, s, t, hs, ht, hv⟩
  · rintro ⟨hne, s, t, hs, ht, hv⟩
    rw [reading_after (isAxial_ofDegrees hs) (isAxial_ofDegrees ht),
      ← rotate_get_of_accepted ht hne] at hv
    exact ⟨List.cons_ne_nil _ _, s, hs, hv⟩

theorem ofAngles_get_eq_ok {a : Vec3 ℚ} {xs : List (Extents ℚ)} {e : Edge} {v : ℚ} :
    ((Operator.ofAngles a).extents xs).get e = .ok v ↔
      xs ≠ [] ∧ ∃ t, ofDegrees a = .ok t ∧ t.reading (Extents.union xs).get e = .ok v := by
  unfold Operator.ofAngles
  simp only [rotate_get_eq_ok, ofDegrees_normalize]

/-- Where both a sum of rotations and the rotations one by one have a coordinate, it is the
same. -/
theorem rotate_sum_unique {a b : Vec3 ℚ} (hsums : Turns.Sums a b) {xs : List (Extents ℚ)}
    {e : Edge} {v w : ℚ} (hv : ((Operator.ofAngles (a + b)).extents xs).get e = .ok v)
    (hw : ((Operator.rotate a).extents [(Operator.rotate b).extents xs]).get e = .ok w) :
    v = w := by
  obtain ⟨-, r, hr, hv⟩ := ofAngles_get_eq_ok.mp hv
  obtain ⟨-, s, t, hs, ht, hw⟩ := rotate_rotate_get_eq_ok.mp hw
  rw [ofDegrees_add hsums hs ht hr, hw] at hv
  exact (Except.ok.inj hv).symm

/-- If the sum is accepted when both rotations are, one has a coordinate where the other
has. -/
theorem rotate_sum_agrees {a b : Vec3 ℚ} (hsums : Turns.Sums a b)
    (haccepts : Accepts (a + b) ↔ Accepts a ∧ Accepts b) (xs : List (Extents ℚ)) (e : Edge)
    (v : ℚ) :
    ((Operator.ofAngles (a + b)).extents xs).get e = .ok v ↔
      ((Operator.rotate a).extents [(Operator.rotate b).extents xs]).get e = .ok v := by
  rw [ofAngles_get_eq_ok, rotate_rotate_get_eq_ok]
  constructor
  · rintro ⟨hne, r, hr, hv⟩
    -- An accepted sum of refused rotations would be a coordinate on one side only.
    obtain ⟨⟨s, hs⟩, ⟨t, ht⟩⟩ := haccepts.mp ⟨r, hr⟩
    rw [ofDegrees_add hsums hs ht hr] at hv
    exact ⟨hne, s, t, hs, ht, hv⟩
  · rintro ⟨hne, s, t, hs, ht, hv⟩
    obtain ⟨r, hr⟩ := haccepts.mpr ⟨⟨s, hs⟩, ⟨t, ht⟩⟩
    rw [← ofDegrees_add hsums hs ht hr] at hv
    exact ⟨hne, r, hr, hv⟩

end Rotations

/-! ## §4. What folding does to a node. -/

namespace Node

/-- Folding the operator into the node adds the angles of two rotations. -/
def SumsRotations (n : Node ℚ) (op : Operator ℚ) (outer inner : Vec3 ℚ) : Prop :=
  op = .rotate outer ∧ Turns.Sums outer inner ∧
    ∃ tag children, tag.isPlain ∧ n = .apply tag (.rotate inner) children

/-- A node is put under the operator, merges with it, or hands its operands over. -/
theorem transform_cases {α : Type} [Scalar α] (n : Node α) (op : Operator α) :
    n.transform op = .apply {} op [n] ∨
      (∃ tag inner children merged, tag.isPlain ∧ n = .apply tag inner children ∧
        op.merge inner = .ok (some merged) ∧ n.transform op = .apply {} merged children) ∨
      ∃ tag operands, tag.isPlain ∧ operands ≠ [] ∧ n = .compose tag .union operands ∧
        n.transform op = .apply {} op operands := by
  unfold transform
  cases n with
  | leaf tag shape => exact .inl rfl
  | part tag members => exact .inl rfl
  | apply tag inner children =>
    dsimp only
    split
    next merged hplain hmerge =>
      rw [Bool.and_eq_true] at hplain
      exact .inr (.inl ⟨tag, inner, children, merged, hplain.1, rfl, hmerge, rfl⟩)
    next => exact .inl rfl
  | compose tag setOp operands =>
    cases setOp with
    | difference => exact .inl rfl
    | intersection => exact .inl rfl
    | union =>
      cases operands with
      | nil => exact .inl rfl
      | cons first rest =>
        by_cases hplain : tag.isPlain = true
        · exact .inr (.inr ⟨tag, first :: rest, hplain, List.cons_ne_nil _ _, rfl, if_pos hplain⟩)
        · exact .inl (if_neg hplain)

/-- Unless it adds the angles of two rotations, folding keeps all readings. -/
theorem extents_transform_eq {n : Node ℚ} {op : Operator ℚ}
    (hgroup : op = .minkowski → ¬ n.IsGroup) (hrotations : ∀ a b, ¬ n.SumsRotations op a b) :
    (n.transform op).extents = (Node.apply {} op [n]).extents := by
  rcases transform_cases n op with h |
    ⟨tag, inner, children, merged, hplain, rfl, hmerge, h⟩ | ⟨tag, operands, hplain, hne, rfl, h⟩
  · rw [h]
  · rw [h, extents_apply, extents_apply, List.map_singleton, extents_apply]
    rcases Operator.merge_eq_some.mp hmerge with ⟨v, w, rfl, rfl, rfl⟩ | ⟨a, b, rfl, rfl, hsums, rfl⟩
    · exact extents_translate_add v w _
    · exact absurd ⟨rfl, (Operator.sumsWith_iff a b).mp hsums, tag, children, hplain, rfl⟩
        (hrotations a b)
  · rw [h, extents_apply, extents_apply, List.map_singleton, extents_compose]
    -- The operands are taken over, and `minkowski` finds only one of them.
    refine (op.extents_union (by simpa using hne) fun hop => ?_).symm
    rw [List.length_map]
    by_contra hlength
    exact hgroup hop ⟨hplain, not_lt.mp hlength⟩

/-- Where folding adds the angles of two rotations, it makes one of them. -/
theorem extents_transform_rotations {n : Node ℚ} {op : Operator ℚ} {a b : Vec3 ℚ}
    (h : n.SumsRotations op a b) :
    ∃ xs, (n.transform op).extents = (Operator.ofAngles (a + b)).extents xs ∧
      (Node.apply {} op [n]).extents
        = (Operator.rotate a).extents [(Operator.rotate b).extents xs] := by
  obtain ⟨rfl, hsums, tag, children, hplain, rfl⟩ := h
  refine ⟨children.map extents, ?_, ?_⟩
  · have hmerge : (Operator.rotate a).merge (.rotate b) = .ok (some (.ofAngles (a + b))) :=
      Operator.merge_eq_some.mpr
        (.inr ⟨a, b, rfl, rfl, (Operator.sumsWith_iff a b).mpr hsums, rfl⟩)
    have hkind : (Operator.rotate a).sameKind (.rotate b) = true := rfl
    rw [transform, hplain, hkind, hmerge]
    exact extents_apply _ _ _
  · rw [extents_apply, List.map_singleton, extents_apply]

end Node

/-! ## §5. Folding. -/

/-- **Folding keeps the extents.** A node under an operator reads the same folded and as it
is, but for `minkowski` over a group: all readings are the same unless two rotations are
added, coordinates on both sides are the same in any case, and there is one on either
side if the sum is accepted just when both rotations are. -/
theorem extents_transform (n : Node ℚ) (op : Operator ℚ)
    (hgroup : op = .minkowski → ¬ n.IsGroup) :
    ((∀ a b, ¬ n.SumsRotations op a b) →
      (n.transform op).extents = (Node.apply {} op [n]).extents) ∧
    (∀ e v w, (n.transform op).extents.get e = .ok v →
      (Node.apply {} op [n]).extents.get e = .ok w → v = w) ∧
    ((∀ a b, n.SumsRotations op a b → (QuarterTurn.Accepts (a + b) ↔
        QuarterTurn.Accepts a ∧ QuarterTurn.Accepts b)) →
      ∀ e v, (n.transform op).extents.get e = .ok v ↔
        (Node.apply {} op [n]).extents.get e = .ok v) := by
  by_cases hrotations : ∃ a b, n.SumsRotations op a b
  · obtain ⟨a, b, h⟩ := hrotations
    obtain ⟨xs, hfolded, hnested⟩ := Node.extents_transform_rotations h
    rw [hfolded, hnested]
    refine ⟨fun hnone => absurd h (hnone a b), fun e v w => rotate_sum_unique h.2.1, ?_⟩
    exact fun haccepts e v => rotate_sum_agrees h.2.1 (haccepts a b h) xs e v
  · have hnone : ∀ a b, ¬ n.SumsRotations op a b := fun a b h => hrotations ⟨a, b, h⟩
    rw [Node.extents_transform_eq hgroup hnone]
    refine ⟨fun _ => rfl, fun e v w hv hw => ?_, fun _ _ _ => Iff.rfl⟩
    rw [hv] at hw
    exact Except.ok.inj hw

/-! A block, alone in a union, in a group with a ball, and turned about Z. -/

/-- A block of side two. -/
def block : Node ℚ := .leaf {} (.cube ⟨2, 2, 2⟩)

/-- The block and a ball of twice its size, as a group. -/
def blockAndBall : Node ℚ := .compose {} .union [block, .leaf {} (.sphere 4 8)]

/-- The block turned about Z. -/
def turnedBlock (degrees : ℚ) : Node ℚ := .apply {} (.rotate ⟨0, 0, degrees⟩) [block]

theorem extents_transform_block :
    ((Node.compose {} .union [block]).transform .minkowski).extents
        = (Node.apply {} .minkowski [.compose {} .union [block]]).extents ∧
      ∀ e v, ((turnedBlock 90).transform (.rotate ⟨0, 0, 180⟩)).extents.get e = .ok v ↔
        (Node.apply {} (.rotate ⟨0, 0, 180⟩) [turnedBlock 90]).extents.get e = .ok v := by
  constructor
  · have hgroup : ¬ (Node.compose {} .union [block]).IsGroup := fun h => absurd h.2 (by decide)
    exact (extents_transform _ .minkowski fun _ => hgroup).1 fun a b h => nomatch h.1
  · refine (extents_transform _ (.rotate ⟨0, 0, 180⟩) nofun).2.2 ?_
    rintro a b ⟨hop, -, tag, children, -, hnode⟩
    cases hop
    cases hnode
    have houter : QuarterTurn.Accepts (⟨0, 0, 180⟩ : Vec3 ℚ) :=
      ⟨.ofQuarters ⟨0, 0, 2⟩, by decide +kernel⟩
    have hinner : QuarterTurn.Accepts (⟨0, 0, 90⟩ : Vec3 ℚ) :=
      ⟨.ofQuarters ⟨0, 0, 1⟩, by decide +kernel⟩
    have hsum : QuarterTurn.Accepts (⟨0, 0, 180⟩ + ⟨0, 0, 90⟩ : Vec3 ℚ) :=
      ⟨.ofQuarters ⟨0, 0, 3⟩, by decide +kernel⟩
    exact iff_of_true hsum ⟨houter, hinner⟩

/-- **What folding changes.** It accepts the sum of angles that are refused one by one, it
refuses the sum of angles that are barely accepted one by one, and over a group it makes
a Minkowski sum of what is one operand. -/
theorem transform_changes_extents :
    (((turnedBlock 45).transform (.rotate ⟨0, 0, 45⟩)).extents.get .right = .ok 1 ∧
      (Node.apply {} (.rotate ⟨0, 0, 45⟩) [turnedBlock 45]).extents.get .right
        = .error (.unsupportedTransform (.rotation ⟨0, 0, 45⟩))) ∧
    (((turnedBlock 7e-10).transform (.rotate ⟨0, 0, 7e-10⟩)).extents.get .right
        = .error (.unsupportedTransform (.rotation ⟨0, 0, 14e-10⟩)) ∧
      (Node.apply {} (.rotate ⟨0, 0, 7e-10⟩) [turnedBlock 7e-10]).extents.get .right = .ok 1) ∧
    ((blockAndBall.transform .minkowski).extents.get .right = .ok 3 ∧
      (Node.apply {} .minkowski [blockAndBall]).extents.get .right = .ok 2) := by
  decide +kernel

end SolidTree
