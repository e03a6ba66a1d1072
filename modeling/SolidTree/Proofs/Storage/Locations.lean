/-
  SolidTree.Proofs.Storage.Locations
  ──────────────────────────────────
  **WHERE PATHS LEAD, AND WHAT IS CHANGED THERE.**

  A path leads step by step to a location, as far as its folders are there.
  Changes put something at one location and leave all others alone:

      Location.of p            — where a path leads, if all of its folders are there
      d.SameFiles after        — the files are the same, whatever folders there are

  Main results:
    * `Location.of_join` — a name that is joined to a path leads one step further
    * `Directory.write_eq` — a write changes nothing but the location of its path
    * `Directory.sameFiles_makeWay` — folders that are made leave the files alone
-/
import SolidTree.Proofs.Storage.Naming
import SolidTree.Storage.Directory

namespace SolidTree

/-! ## §1. Names of a path. -/

namespace Path

theorem split_ne_nil (cs : List Char) : split cs ≠ [] := by
  cases cs with
  | nil => exact List.cons_ne_nil _ _
  | cons c rest =>
    rw [split]
    split_ifs
    · exact List.cons_ne_nil _ _
    · split <;> exact List.cons_ne_nil _ _

/-- A separator divides the names before it from those behind it. -/
theorem split_append (xs ys : List Char) : split (xs ++ '/' :: ys) = split xs ++ split ys := by
  induction xs with
  | nil => rfl
  | cons c rest ih =>
    rw [List.cons_append, split, split, ih]
    split_ifs
    · rfl
    · cases hrest : split rest with
      | nil => exact absurd hrest (split_ne_nil rest)
      | cons name names => rfl

theorem split_component {name : List Char} (h : '/' ∉ name) : split name = [name] := by
  induction name with
  | nil => rfl
  | cons c rest ih =>
    rw [List.mem_cons, not_or] at h
    rw [split, if_neg (Ne.symm h.1), ih h.2]

/-- The last of the names is what stands behind the last separator. -/
theorem split_eq_dropLast (cs : List Char) : split cs = (split cs).dropLast ++ [lastName cs] := by
  by_cases h : '/' ∈ cs
  · obtain ⟨folder, name, rfl, hname⟩ := exists_append_cons h
    have hlast : lastName (folder ++ '/' :: name) = name := by
      rw [← List.singleton_append, ← List.append_assoc]
      exact lastName_component (.inr ⟨_, rfl⟩) hname
    rw [hlast, split_append, split_component hname, List.dropLast_concat]
  · have hbase : IsFolder [] := .inl rfl
    have hlast : lastName cs = cs := lastName_component hbase h
    rw [hlast, split_component h]
    rfl

end Path

/-! ## §2. Locations. -/

namespace Location

/-- Where the names of a text lead. -/
def follow (l : Location) (cs : List Char) : Location := (Path.split cs).foldl step l

/-- Where a path leads, if all of its folders are there. -/
def of (p : Path) : Location := (startOf p).follow p.chars

theorem follow_append (l : Location) (xs ys : List Char) :
    l.follow (xs ++ '/' :: ys) = (l.follow xs).follow ys := by
  unfold follow
  rw [Path.split_append, List.foldl_append]

theorem follow_component (l : Location) {name : List Char} (h : '/' ∉ name) :
    l.follow name = l.step name := by
  unfold follow
  rw [Path.split_component h]
  rfl

theorem follow_nil (l : Location) : l.follow [] = l := rfl

theorem startOf_base (p : Path) {name : List Char} (h : '/' ∉ name) :
    startOf ⟨p.base ++ name⟩ = startOf p := by
  have habsolute : Path.isAbsolute ⟨p.base ++ name⟩ = p.isAbsolute := by
    obtain ⟨cs⟩ := p
    cases cs with
    | nil => exact Path.isAbsolute_of_notMem h
    | cons c rest =>
      unfold Path.base
      split_ifs <;> rfl
  unfold startOf
  rw [habsolute]

/-- **A name that is joined to a path leads one step further.** -/
theorem of_join (p : Path) {name : List Char} (h : '/' ∉ name) :
    of (p.join ⟨name⟩) = (of p).step name := by
  rw [Path.join_eq p h]
  unfold of
  rw [startOf_base p h]
  show (startOf p).follow (p.base ++ name) = _
  unfold Path.base
  split_ifs with hbase
  · rcases hbase with hempty | hseparator
    · have hnil : p.chars = [] := List.isEmpty_iff.mp hempty
      rw [hnil, List.nil_append, follow_nil, follow_component _ h]
    · obtain ⟨folder, hfolder⟩ := List.getLast?_eq_some_iff.mp hseparator
      rw [hfolder, List.append_assoc, List.singleton_append, follow_append, follow_append,
        follow_nil, follow_component _ h]
  · rw [List.append_assoc, List.singleton_append, follow_append, follow_component _ h]

theorem step_child (l : Location) {name : List Char} (hname : name ≠ []) (hdot : name ≠ ['.'])
    (hup : name ≠ ['.', '.']) : l.step name = l.child name := by
  unfold step
  rw [if_neg (not_or.mpr ⟨hname, hdot⟩), if_neg hup]

theorem child_injective (l : Location) {name other : List Char}
    (h : l.child name = l.child other) : name = other :=
  (List.cons.inj (congrArg Location.names h)).1

end Location

/-! ## §3. Changes. -/

namespace Directory

/-- Steps that can be made lead where the names say. -/
theorem walk_eq {d : Directory} {names : List (List Char)} {l place : Location}
    (h : d.walk l names = some place) : place = names.foldl Location.step l := by
  induction names generalizing l with
  | nil => exact (Option.some.inj h).symm
  | cons name rest ih =>
    unfold walk at h ih
    rw [List.foldlM_cons] at h
    split_ifs at h
    · exact ih h
    · cases h

/-- **A write changes nothing but the location of its path.** -/
theorem write_eq {d after : Directory} {p : Path} {content : String}
    (h : d.write p content = some after) : after = d.put (Location.of p) (.file content) := by
  unfold write at h
  dsimp only at h
  split_ifs at h with husable
  split at h
  next folder hwalk =>
    split_ifs at h
    obtain ⟨-, -, hname, hdot, hup⟩ := husable
    have hplace : Location.of p = folder.child (Path.lastName p.chars) := by
      unfold Location.of Location.follow
      rw [Path.split_eq_dropLast, List.foldl_append, ← walk_eq hwalk]
      exact Location.step_child folder hname hdot hup
    rw [hplace]
    exact (Option.some.inj h).symm
  next => cases h

theorem entry?_put_self (d : Directory) {l : Location} (h : l.names ≠ []) (e : Entry) :
    entry? (d.put l e) l = some e := by
  unfold entry? put
  rw [if_neg (by rwa [List.isEmpty_iff]), List.lookup_cons_self]

theorem entry?_put_of_ne (d : Directory) {l place : Location} (h : l ≠ place) (e : Entry) :
    entry? (d.put place e) l = d.entry? l := by
  have hothers : (d.entries.filter fun old => old.1 != place).lookup l = d.entries.lookup l := by
    induction d.entries with
    | nil => rfl
    | cons old rest ih =>
      obtain ⟨at', entry⟩ := old
      by_cases hat : at' = place
      · rw [List.filter_cons_of_neg (by simp [hat]), ih, hat, List.lookup_cons,
          beq_false_of_ne h]
      · rw [List.filter_cons_of_pos (by simp [hat]), List.lookup_cons, List.lookup_cons, ih]
  unfold entry? put
  rw [List.lookup_cons, beq_false_of_ne h]
  dsimp only
  rw [hothers]

/-- Both hold the same files. -/
def SameFiles (d after : Directory) : Prop :=
  ∀ l content, after.entry? l = some (.file content) ↔ d.entry? l = some (.file content)

/-- A folder that is put where nothing was leaves the files as they are. -/
theorem sameFiles_put_folder {d : Directory} {place : Location} (h : d.entry? place = none) :
    d.SameFiles (d.put place .folder) := by
  intro l content
  by_cases hl : l = place
  · have hnames : place.names ≠ [] := by
      intro hnil
      unfold entry? at h
      rw [hnil] at h
      cases h
    rw [hl, entry?_put_self d hnames, h]
    exact iff_of_false nofun nofun
  · rw [entry?_put_of_ne d hl]

/-- Folders that are made leave the files as they are. -/
theorem sameFiles_makeWay {d : Directory} {l : Location} {names : List (List Char)}
    {made : Directory × Location} (h : d.makeWay l names = some made) : d.SameFiles made.1 := by
  induction names generalizing d l with
  | nil =>
    unfold makeWay at h
    split_ifs at h
    rw [← Option.some.inj h]
    exact fun _ _ => Iff.rfl
  | cons name rest ih =>
    have hfolder : d.isFolder l = true := by
      by_contra hnone
      rw [makeWay, if_neg hnone] at h
      cases h
    rw [makeWay, if_pos hfolder] at h
    dsimp only at h
    cases hentry : d.entry? (l.step name) with
    | some _ =>
      rw [hentry] at h
      exact ih h
    | none =>
      rw [hentry] at h
      dsimp only at h
      split_ifs at h
      exact fun place content =>
        (ih h place content).trans (sameFiles_put_folder hentry place content)

end Directory

end SolidTree
