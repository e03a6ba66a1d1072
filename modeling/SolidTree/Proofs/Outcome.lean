/-
  SolidTree.Proofs.Outcome
  ────────────────────────
  **COMPUTATIONS THAT MAY FAIL.**

  Measures and drawings are computed in steps of which each may end in a
  fault.  What is known of a success is read off here once:

      bind_eq_ok, check_bind_eq_ok, map_eq_ok
                             — a chain succeeds iff its steps do
      mapM_eq_ok, mapM_id_eq_ok
                             — a list succeeds iff its members do, one by one
      map_mapM_nested        — a list is summed up in two steps
      bind_eq_error          — a chain fails as its first failing step does
      fails_mapM, mapM_eq_error
                             — a list fails iff some member does, and as it does
-/
import Mathlib.Data.List.Forall2

namespace SolidTree.Outcome

variable {ε β γ : Type}

/-! ## §1. One step after the other. -/

theorem bind_eq_ok {x : Except ε β} {f : β → Except ε γ} {c : γ} :
    (x >>= f) = .ok c ↔ ∃ b, x = .ok b ∧ f b = .ok c := by
  cases x <;> simp [bind, Except.bind]

/-- A check with nothing to hand on. -/
theorem check_bind_eq_ok {x : Except ε Unit} {y : Except ε γ} {c : γ} :
    (x >>= fun _ => y) = .ok c ↔ x = .ok () ∧ y = .ok c := by
  cases x <;> simp [bind, Except.bind]

theorem map_eq_ok {x : Except ε β} {f : β → γ} {c : γ} :
    x.map f = .ok c ↔ ∃ b, x = .ok b ∧ f b = c := by
  cases x <;> simp [Except.map]

theorem pure_eq_ok (b : β) : (pure b : Except ε β) = .ok b := rfl

/-! ## §2. Lists of steps. -/

/-- A list of steps succeeds with a list of results iff each step does with its own. -/
theorem mapM_eq_ok {f : β → Except ε γ} {bs : List β} {cs : List γ} :
    bs.mapM f = .ok cs ↔ List.Forall₂ (fun b c => f b = .ok c) bs cs := by
  induction bs generalizing cs with
  | nil => cases cs <;> simp [pure_eq_ok]
  | cons b bs ih =>
    -- The list succeeds if its first step does and then the rest of it.
    rw [List.mapM_cons, bind_eq_ok]
    constructor
    · rintro ⟨c, hc, h⟩
      obtain ⟨rest, hrest, h⟩ := bind_eq_ok.mp h
      cases h
      exact .cons hc (ih.mp hrest)
    · rintro (_ | ⟨hc, hrest⟩)
      exact ⟨_, hc, bind_eq_ok.mpr ⟨_, ih.mpr hrest, rfl⟩⟩

/-- Each result of a list is the result of one of its steps. -/
theorem exists_of_mapM_eq_ok {f : β → Except ε γ} {bs : List β} {cs : List γ}
    (h : bs.mapM f = .ok cs) : ∀ c ∈ cs, ∃ b ∈ bs, f b = .ok c := by
  have hsteps := mapM_eq_ok.mp h
  clear h
  induction hsteps with
  | nil => exact List.forall_mem_nil _
  | @cons b c bs cs hfirst _ ih =>
    refine List.forall_mem_cons.mpr ⟨⟨b, List.mem_cons_self, hfirst⟩, fun c' hc' => ?_⟩
    obtain ⟨b', hb', hc⟩ := ih c' hc'
    exact ⟨b', List.mem_cons_of_mem b hb', hc⟩

/-- A list of results succeeds iff they all do. -/
theorem mapM_id_eq_ok {results : List (Except ε β)} {bs : List β} :
    results.mapM id = .ok bs ↔ results = bs.map .ok := by
  rw [mapM_eq_ok, ← List.forall₂_eq_eq_eq, List.forall₂_map_right_iff]
  rfl

/-- Steps that commute with a change of what goes in and what comes out do so as a
list. -/
theorem mapM_map_comm {β' γ' : Type} {f : β → Except ε γ} {f' : β' → Except ε γ'} {g : β → β'}
    {h : γ → γ'} (hf : ∀ b, f' (g b) = (f b).map h) (bs : List β) :
    (bs.map g).mapM f' = (bs.mapM f).map (List.map h) := by
  induction bs with
  | nil => rfl
  | cons b bs ih =>
    rw [List.map_cons, List.mapM_cons, List.mapM_cons, hf, ih]
    cases f b with
    | error e => rfl
    | ok c => cases (bs.mapM f : Except ε (List γ)) <;> rfl

/-- Where a list of values can be summed up in two steps, a list of results can be, with the
same failures. -/
theorem map_mapM_nested {f : List β → β}
    (hf : ∀ {bs : List β}, bs ≠ [] → ∀ cs, f (f bs :: cs) = f (bs ++ cs))
    {results : List (Except ε β)} (hne : results ≠ []) (more : List (Except ε β)) :
    (((results.mapM id).map f :: more).mapM id).map f = ((results ++ more).mapM id).map f := by
  rw [List.mapM_cons, List.mapM_append]
  cases hresults : results.mapM id with
  | error e => rfl
  | ok bs =>
    have hbs : bs ≠ [] := by
      rintro rfl
      exact hne (mapM_id_eq_ok.mp hresults)
    cases more.mapM id with
    | error e => rfl
    | ok cs => exact congrArg Except.ok (hf hbs cs)

/-! ## §3. Failures. -/

/-- There is no result. -/
def Fails (x : Except ε β) : Prop := ∃ e, x = .error e

theorem not_fails_ok (b : β) : ¬ Fails (.ok b : Except ε β) := fun ⟨_, h⟩ => nomatch h

theorem fails_error (e : ε) : Fails (.error e : Except ε β) := ⟨e, rfl⟩

/-- A chain fails where its first step does, or where that succeeds and the rest fails. -/
theorem bind_eq_error {x : Except ε β} {f : β → Except ε γ} {e : ε} :
    (x >>= f) = .error e ↔ x = .error e ∨ ∃ b, x = .ok b ∧ f b = .error e := by
  cases x <;> simp [bind, Except.bind]

theorem map_eq_error {x : Except ε β} {f : β → γ} {e : ε} :
    x.map f = .error e ↔ x = .error e := by
  cases x <;> simp [Except.map]

theorem fails_map {x : Except ε β} {f : β → γ} : Fails (x.map f) ↔ Fails x :=
  exists_congr fun _ => map_eq_error

/-- A list of steps fails iff one of them does. -/
theorem fails_mapM {f : β → Except ε γ} {bs : List β} :
    Fails (bs.mapM f) ↔ ∃ b ∈ bs, Fails (f b) := by
  induction bs with
  | nil => simp [pure_eq_ok, not_fails_ok]
  | cons b bs ih =>
    rw [List.mapM_cons, List.exists_mem_cons_iff, ← ih]
    cases f b with
    | error e => exact iff_of_true (fails_error e) (.inl (fails_error e))
    | ok c =>
      -- The first step succeeds, so it is the rest that fails.
      refine Iff.trans ?_ (or_iff_right (not_fails_ok c)).symm
      exact fails_map (f := fun cs => c :: cs)

/-- A list of steps fails as one of them does. -/
theorem mapM_eq_error {f : β → Except ε γ} {bs : List β} {e : ε} (h : bs.mapM f = .error e) :
    ∃ b ∈ bs, f b = .error e := by
  induction bs with
  | nil => cases h
  | cons b bs ih =>
    rw [List.mapM_cons] at h
    cases hb : f b with
    | error e' =>
      rw [hb] at h
      cases h
      exact ⟨b, List.mem_cons_self, hb⟩
    | ok c =>
      rw [hb] at h
      obtain ⟨b', hmem, hfails⟩ := ih (map_eq_error (f := fun cs => c :: cs).mp h)
      exact ⟨b', List.mem_cons_of_mem b hmem, hfails⟩

end SolidTree.Outcome
