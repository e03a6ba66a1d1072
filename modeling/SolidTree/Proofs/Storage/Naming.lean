/-
  SolidTree.Proofs.Storage.Naming
  ───────────────────────────────
  **THE LAST NAME OF A PATH, AND ITS EXTENSION.**

  Only the last name of a path is looked at when an extension is read or set,
  after separators and dots behind it have been trimmed.  If what was joined
  last is a component, that is the last name; a name is divided by its last
  dot, unless that is its first character:

      IsFolder base       — nothing, or a path and a separator
      IsComponent name    — a name that is not trimmed

  Main results:
    * `withExtension_component` — a component without a dot gets the extension
      behind it
    * `of_withExtension_eq` — nothing else does
    * `join_eq` — what is written before a name that is joined to a path
-/
import Mathlib.Data.List.TakeWhile
import SolidTree.Storage.Path

namespace SolidTree.Path

/-! ## §1. The last name. -/

/-- What stands before a name: nothing, or a path and a separator. -/
def IsFolder (base : List Char) : Prop := base = [] ∨ ∃ folder, base = folder ++ ['/']

/-- A name that is no separator, and no dot for the folder it stands in. -/
structure IsComponent (name : List Char) : Prop where
  nonempty : name ≠ []
  noDot : name ≠ ['.']
  noSeparator : '/' ∉ name

/-- Something in a list has a last place in it. -/
theorem exists_append_cons {c : Char} {cs : List Char} (h : c ∈ cs) :
    ∃ before after, cs = before ++ c :: after ∧ c ∉ after := by
  obtain ⟨after, before, hreverse, hafter⟩ :=
    List.eq_append_cons_of_mem (List.mem_reverse.mpr h)
  refine ⟨before.reverse, after.reverse, ?_, fun hmem => hafter (List.mem_reverse.mp hmem)⟩
  rw [List.reverse_eq_iff.mp hreverse, List.reverse_append, List.reverse_cons, List.append_assoc]
  rfl

/-- What is read from the end up to the last place of a character. -/
theorem dropWhile_reverse_append {c : Char} {before after : List Char} (h : c ∉ after) :
    (before ++ c :: after).reverse.dropWhile (· ≠ c) = c :: before.reverse := by
  have hafter : ∀ d ∈ after.reverse, decide (d ≠ c) = true := fun d hd =>
    decide_eq_true fun heq => h (heq ▸ List.mem_reverse.mp hd)
  rw [List.reverse_append, List.reverse_cons, List.append_assoc,
    List.dropWhile_append_of_pos hafter]
  exact List.dropWhile_cons_of_neg (by simp)

theorem trimBack_length_le (cs : List Char) : (trimBack cs).length ≤ cs.length := by
  induction cs using trimBack.induct with
  | case1 rest ih =>
    rw [trimBack, List.length_cons]
    omega
  | case2 rest ih =>
    rw [trimBack, List.length_cons, List.length_cons]
    omega
  | case3 cs h h' => rw [trimBack.eq_3 cs h h']

theorem body_length_le (p : Path) : p.body.length ≤ p.chars.length := by
  have hle := trimBack_length_le p.chars.reverse
  rw [List.length_reverse] at hle
  unfold body
  rwa [List.length_reverse]

/-- What ends in a separator, or in a dot behind one, is trimmed. -/
theorem body_length_lt {base name : List Char} (hname : name = [] ∨ name = ['.']) :
    (body ⟨base ++ '/' :: name⟩).length < (base ++ '/' :: name).length := by
  have hle := trimBack_length_le base.reverse
  rw [List.length_reverse] at hle
  unfold body
  rw [List.length_reverse, List.length_append, List.reverse_append]
  rcases hname with rfl | rfl
  · show (trimBack base.reverse).length < _
    rw [List.length_singleton]
    omega
  · show (trimBack base.reverse).length < _
    rw [List.length_cons, List.length_singleton]
    omega

/-- A component at the end of a path is not trimmed. -/
theorem body_component {name : List Char} (h : IsComponent name) (base : List Char) :
    body ⟨base ++ name⟩ = base ++ name := by
  have htrim : trimBack (name.reverse ++ base.reverse) = name.reverse ++ base.reverse := by
    cases hreverse : name.reverse with
    | nil => exact absurd (List.reverse_eq_nil_iff.mp hreverse) h.nonempty
    | cons c rest =>
      have hnone : '/' ∉ c :: rest := by
        rw [← hreverse, List.mem_reverse]
        exact h.noSeparator
      refine trimBack.eq_3 _ (fun more hmore => ?_) fun more hmore => ?_
      · exact hnone ((List.cons.inj hmore).1 ▸ List.mem_cons_self)
      · -- The dot is not the whole name, and what stands before it is no separator.
        obtain ⟨hdot, hmore⟩ := List.cons.inj hmore
        rw [hdot] at hreverse
        cases rest with
        | nil => exact h.noDot (List.reverse_eq_iff.mp hreverse)
        | cons d rest =>
          obtain ⟨rfl, -⟩ := List.cons.inj hmore
          exact hnone (List.mem_cons_of_mem _ List.mem_cons_self)
  unfold body
  rw [List.reverse_append, htrim, ← List.reverse_append, List.reverse_reverse]

theorem lastName_component {base name : List Char} (hbase : IsFolder base) (h : '/' ∉ name) :
    lastName (base ++ name) = name := by
  have hname : ∀ c ∈ name.reverse, decide (c ≠ '/') = true := fun c hc =>
    decide_eq_true fun heq => h (heq ▸ List.mem_reverse.mp hc)
  have hfolder : base.reverse.takeWhile (· ≠ '/') = [] := by
    rcases hbase with rfl | ⟨folder, rfl⟩
    · rfl
    · rw [List.reverse_append]
      rfl
  unfold lastName
  rw [List.reverse_append, List.takeWhile_append_of_pos hname, hfolder, List.append_nil,
    List.reverse_reverse]

/-- A path that ends in a component has it as its last name, unless it is the way up. -/
theorem fileName?_component {base name : List Char} (hbase : IsFolder base)
    (h : IsComponent name) (hup : name ≠ ['.', '.']) :
    fileName? ⟨base ++ name⟩ = some name := by
  have hlast : lastName (body ⟨base ++ name⟩) = name := by
    rw [body_component h, lastName_component hbase h.noSeparator]
  unfold fileName?
  rw [hlast]
  exact if_neg fun hor => hor.elim h.nonempty fun hor => hor.elim h.noDot hup

/-! ## §2. Extensions. -/

/-- The last dot divides a name. -/
theorem splitName_append {stem extension : List Char} (hstem : stem ≠ [])
    (h : '.' ∉ extension) : splitName (stem ++ '.' :: extension) = (stem, some extension) := by
  unfold splitName
  rw [dropWhile_reverse_append h, List.drop_one, List.tail_cons]
  split
  next hnil => exact absurd (List.reverse_eq_nil_iff.mp hnil) hstem
  next =>
    rw [List.reverse_reverse, List.length_reverse, List.drop_length_add_append]
    rfl

/-- A name has no dot but at its start, or its last dot divides it. -/
theorem splitName_cases (name : List Char) :
    ('.' ∉ name.drop 1 ∧ splitName name = (name, none)) ∨
      ∃ stem extension, stem ≠ [] ∧ name = stem ++ '.' :: extension ∧
        splitName name = (stem, some extension) := by
  by_cases hdot : '.' ∈ name
  · obtain ⟨stem, extension, rfl, hextension⟩ := exists_append_cons hdot
    by_cases hstem : stem = []
    · subst hstem
      refine .inl ⟨hextension, ?_⟩
      unfold splitName
      rw [dropWhile_reverse_append hextension]
      rfl
    · exact .inr ⟨stem, extension, hstem, rfl, splitName_append hstem hextension⟩
  · refine .inl ⟨fun hmem => hdot (List.mem_of_mem_drop hmem), ?_⟩
    have hnone : name.reverse.dropWhile (· ≠ '.') = [] :=
      List.dropWhile_eq_nil_iff.mpr fun c hc =>
        decide_eq_true fun heq => hdot (heq ▸ List.mem_reverse.mp hc)
    unfold splitName
    rw [hnone]
    rfl

theorem splitName_length_le (name : List Char) : (splitName name).1.length ≤ name.length := by
  rcases splitName_cases name with ⟨-, hsplit⟩ | ⟨stem, extension, -, hname, hsplit⟩
  · rw [hsplit]
  · rw [hsplit, hname, List.length_append]
    exact Nat.le_add_right _ _

theorem fileName?_eq {p : Path} {name : List Char} (h : p.fileName? = some name) :
    lastName p.body = name := by
  unfold fileName? at h
  dsimp only at h
  split_ifs at h
  exact Option.some.inj h

theorem fileName?_length_le {p : Path} {name : List Char} (h : p.fileName? = some name) :
    name.length ≤ p.body.length := by
  rw [← fileName?_eq h, lastName, List.length_reverse]
  exact (List.takeWhile_sublist _).length_le.trans_eq List.length_reverse

theorem setExtension_length {p : Path} {name : List Char} (h : p.fileName? = some name)
    (extension : List Char) :
    (p.setExtension extension).chars.length + name.length
      = p.body.length + (splitName name).1.length + extension.length + 1 := by
  have hle := fileName?_length_le h
  unfold setExtension
  rw [h]
  simp only [List.length_append, List.length_take, List.length_cons]
  omega

theorem setExtension_length_le (p : Path) (extension : List Char) :
    (p.setExtension extension).chars.length ≤ p.chars.length + extension.length + 1 := by
  cases h : p.fileName? with
  | none =>
    unfold setExtension
    rw [h]
    exact (Nat.le_add_right _ _).trans (Nat.le_add_right _ _)
  | some name =>
    have hlength := setExtension_length h extension
    have hbody := p.body_length_le
    have hstem := splitName_length_le name
    omega

/-- An extension that comes behind all of a path was put on its last name, which had none, and
nothing stood behind that name. -/
theorem of_withExtension_eq {p : Path} {extension : List Char}
    (h : p.withExtension extension = ⟨p.chars ++ '.' :: extension⟩) :
    ∃ name, p.fileName? = some name ∧ '.' ∉ name.drop 1 ∧ p.body.length = p.chars.length := by
  have hlength := congrArg (·.chars.length) h
  simp only [List.length_append, List.length_cons] at hlength
  cases hname : p.fileName? with
  | none =>
    have hnone : p.extension? = none := by
      unfold extension?
      rw [hname]
      rfl
    unfold withExtension setExtension at hlength
    rw [hnone] at hlength
    simp only [hname] at hlength
    omega
  | some name =>
    have hextension : p.extension? = (splitName name).2 := by
      unfold extension?
      rw [hname]
      rfl
    have hbody := p.body_length_le
    rcases splitName_cases name with ⟨hnone, hsplit⟩ | ⟨stem, old, -, hdivided, hsplit⟩
    · refine ⟨name, rfl, hnone, ?_⟩
      have hset := setExtension_length hname extension
      unfold withExtension at hlength
      rw [hextension, hsplit] at hlength
      rw [hsplit] at hset
      simp only at hlength hset
      omega
    · -- Where an extension was, less is left than was there.
      exfalso
      unfold withExtension at hlength
      rw [hextension, hsplit] at hlength
      simp only at hlength
      cases old with
      | nil =>
        rw [List.length_nil, Nat.sub_zero, List.take_length] at hlength
        change (p.setExtension extension).chars.length = _ at hlength
        have hset := setExtension_length hname extension
        rw [hsplit] at hset
        simp only [hdivided, List.length_append, List.length_cons] at hset
        omega
      | cons c old =>
        have hset := setExtension_length_le
          ⟨p.chars.take (p.chars.length - (c :: old).length)⟩ extension
        rw [hlength, List.length_take, List.length_cons] at hset
        have hold := fileName?_length_le hname
        rw [hdivided, List.length_append, List.length_cons, List.length_cons] at hold
        omega

/-- A component without a dot but at its start gets the extension behind it. -/
theorem withExtension_component {base name : List Char} (hbase : IsFolder base)
    (h : IsComponent name) (hdot : '.' ∉ name.drop 1) (extension : List Char) :
    withExtension ⟨base ++ name⟩ extension = ⟨base ++ name ++ '.' :: extension⟩ := by
  have hname : fileName? ⟨base ++ name⟩ = some name :=
    fileName?_component hbase h fun hup => hdot (by rw [hup]; exact List.mem_singleton_self _)
  have hsplit : splitName name = (name, none) := by
    rcases splitName_cases name with ⟨-, hsplit⟩ | ⟨stem, old, hne, hdivided, -⟩
    · exact hsplit
    · refine absurd ?_ hdot
      rw [hdivided, List.drop_append_of_le_length (List.length_pos_iff.mpr hne)]
      exact List.mem_append_right _ List.mem_cons_self
  have hnone : extension? ⟨base ++ name⟩ = none := by
    unfold extension?
    rw [hname, Option.bind_some, hsplit]
  unfold withExtension setExtension
  rw [hnone]
  simp only [hname, hsplit, body_component h]
  rw [List.length_append, Nat.add_sub_cancel, List.take_left]

/-! ## §3. Paths below paths. -/

/-- What a path is written down with before a name below it. -/
def base (p : Path) : List Char :=
  if p.isEmpty ∨ p.chars.getLast? = some '/' then p.chars else p.chars ++ ['/']

theorem isFolder_base (p : Path) : IsFolder p.base := by
  unfold base
  split_ifs with h
  · rcases h with h | h
    · exact .inl (List.isEmpty_iff.mp h)
    · exact .inr (List.getLast?_eq_some_iff.mp h)
  · exact .inr ⟨p.chars, rfl⟩

theorem isAbsolute_of_notMem {name : List Char} (h : '/' ∉ name) :
    isAbsolute ⟨name⟩ = false := by
  unfold isAbsolute
  cases name with
  | nil => rfl
  | cons c rest =>
    refine beq_eq_false_iff_ne.mpr fun hc => h ?_
    rw [Option.some.inj hc]
    exact List.mem_cons_self

theorem join_eq (p : Path) {name : List Char} (h : '/' ∉ name) :
    p.join ⟨name⟩ = ⟨p.base ++ name⟩ := by
  unfold join base
  rw [isAbsolute_of_notMem h, if_neg Bool.false_ne_true]
  split_ifs
  · rfl
  · rw [List.append_assoc]
    rfl

end SolidTree.Path
