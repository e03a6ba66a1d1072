/-
  SolidTree.Proofs.Storage.Saving
  ───────────────────────────────
  **WHERE A MODEL IS SAVED.**

  The stem of a model is joined to the output folder, and the path gets the
  extension of source files.  The stem may be any text.  It is one name in
  the folder, and the extension comes behind all of it, just if it is plain:

      stem         saved as            instead of
      gear.v2      out/gear.scad       out/gear.v2.scad
      a/b          out/a/b.scad        a name in the folder
      ..           out/..              a name in the folder
      ""  and  .   out.scad            a name in the folder

  Main results:
    * `Directory.exportSource_spec` — an export changes one file
    * `Config.saved_under_own_name_iff` — which stems are saved as they say
-/
import SolidTree.Command.Run
import SolidTree.Proofs.Storage.Locations

namespace SolidTree

/-! ## §1. Exporting. -/

namespace Directory

/-- What is there when the folder of a file has been made. -/
def prepared? (d : Directory) (p : Path) : Option Directory :=
  if p.parent.isEmpty then some d else d.makeFolder p.parent

theorem sameFiles_prepared {d folders : Directory} {p : Path} (h : d.prepared? p = some folders) :
    d.SameFiles folders := by
  unfold prepared? makeFolder at h
  split_ifs at h
  · rw [← Option.some.inj h]
    exact fun _ _ => Iff.rfl
  · obtain ⟨made, hmade, rfl⟩ := Option.map_eq_some_iff.mp h
    exact sameFiles_makeWay hmade

theorem run_change (f : Directory → Option Directory) (d : Directory) :
    (change f).run d = ((f d).isSome, (f d).getD d) := by
  unfold change
  rw [StateT.run_bind, StateT.run_get, pure_bind]
  cases f d <;> rfl

theorem run_bind {α β : Type} (x : ExceptT Failure (StateM Directory) α)
    (k : α → ExceptT Failure (StateM Directory) β) (d : Directory) :
    (x >>= k).run.run d =
      match x.run.run d with
      | (.ok a, after) => (k a).run.run after
      | (.error failure, after) => (.error failure, after) := by
  rw [ExceptT.run_bind, StateT.run_bind]
  rcases x.run.run d with ⟨_ | _, _⟩ <;> rfl

theorem run_change_bind {β : Type} (f : Directory → Option Directory)
    (k : Bool → ExceptT Failure (StateM Directory) β) (d : Directory) :
    ((change f : ExceptT Failure (StateM Directory) Bool) >>= k).run.run d =
      (k (f d).isSome).run.run ((f d).getD d) := by
  rw [run_bind, ExceptT.run_liftM, StateT.run_map, run_change]
  rfl

theorem run_prepareFolder (p : Path) (d : Directory) :
    (Store.prepareFolder store p).run.run d =
      match d.prepared? p with
      | none => (.error (.folderNotMade p.parent), d)
      | some folders => (.ok (), folders) := by
  unfold Store.prepareFolder prepared?
  dsimp only
  cases p.parent.isEmpty with
  | true => rfl
  | false =>
    refine (run_change_bind (·.makeFolder p.parent) _ d).trans ?_
    rw [if_neg Bool.false_ne_true]
    cases d.makeFolder p.parent <;> rfl

/-- Source is exported in two steps: its folder is made, and its file is written. -/
theorem run_exportSource {p : Path} (h : p.extension? = some sourceExtension) (d : Directory)
    (source : String) :
    (Store.exportSource store source p).run.run d =
      match d.prepared? p with
      | none => (.error (.folderNotMade p.parent), d)
      | some folders =>
        match folders.write p source with
        | none => (.error (.sourceNotWritten p), folders)
        | some after => (.ok p, after) := by
  unfold Store.exportSource
  rw [if_pos h, run_bind, run_prepareFolder]
  cases d.prepared? p with
  | none => rfl
  | some folders =>
    refine (run_change_bind (·.write p source) _ folders).trans ?_
    dsimp only
    cases folders.write p source <;> rfl

/-- **An export changes no file but the one it is for.** If it succeeds, that file holds the
source. -/
theorem exportSource_spec {p : Path} (h : p.extension? = some sourceExtension)
    (hnames : (Location.of p).names ≠ []) (d : Directory) (source : String)
    {result : Except Failure Path} {after : Directory}
    (hrun : (Store.exportSource store source p).run.run d = (result, after)) :
    (∀ l ≠ Location.of p, ∀ content,
        after.entry? l = some (.file content) ↔ d.entry? l = some (.file content)) ∧
      ∀ written, result = .ok written →
        written = p ∧ after.entry? (Location.of p) = some (.file source) := by
  rw [run_exportSource h] at hrun
  cases hfolders : d.prepared? p with
  | none =>
    rw [hfolders] at hrun
    cases hrun
    exact ⟨fun _ _ _ => Iff.rfl, nofun⟩
  | some folders =>
    have hsame := sameFiles_prepared hfolders
    rw [hfolders] at hrun
    dsimp only at hrun
    cases hwrite : folders.write p source with
    | none =>
      rw [hwrite] at hrun
      cases hrun
      -- The folders stay, also if the file could not be written.
      exact ⟨fun l _ => hsame l, nofun⟩
    | some written =>
      rw [hwrite] at hrun
      cases hrun
      rw [write_eq hwrite]
      refine ⟨fun l hl content => ?_, fun written hwritten => ?_⟩
      · rw [entry?_put_of_ne folders hl]
        exact hsame l content
      · exact ⟨(Except.ok.inj hwritten).symm, entry?_put_self folders hnames _⟩

end Directory

/-! ## §2. Saved models. -/

/-- The name of a source file. -/
def sourceName (stem : List Char) : List Char := stem ++ '.' :: sourceExtension

/-- The stem is one name that is not a folder's, and no dot stands in it but at its start. -/
structure IsPlainStem (stem : List Char) : Prop extends Path.IsComponent stem where
  noExtension : '.' ∉ stem.drop 1

theorem notMem_sourceName {stem : List Char} (h : '/' ∉ stem) : '/' ∉ sourceName stem := by
  unfold sourceName
  rw [List.mem_append]
  rintro (hmem | hmem)
  · exact h hmem
  · revert hmem
    decide

/-- The name of a source file is no shorter than its extension with the dot. -/
theorem sourceName_ne {stem name : List Char} (h : name.length < 5) : sourceName stem ≠ name := by
  have hlength : (sourceName stem).length = stem.length + 5 := List.length_append
  intro heq
  rw [heq] at hlength
  omega

theorem step_sourceName (l : Location) (stem : List Char) :
    l.step (sourceName stem) = l.child (sourceName stem) :=
  Location.step_child l (sourceName_ne (by decide)) (sourceName_ne (by decide))
    (sourceName_ne (by decide))

namespace Config

variable (config : Config) (stem : Path)

/-- A plain stem is saved in the output folder, under its own name. -/
theorem outputPath_plain (h : IsPlainStem stem.chars) :
    config.outputPath stem = config.outputDir.join ⟨sourceName stem.chars⟩ := by
  have hjoin : config.outputDir.join stem = ⟨config.outputDir.base ++ stem.chars⟩ :=
    Path.join_eq config.outputDir h.noSeparator
  unfold outputPath
  rw [hjoin, Path.join_eq _ (notMem_sourceName h.noSeparator),
    Path.withExtension_component (Path.isFolder_base _) h.toIsComponent h.noExtension,
    sourceName, List.append_assoc]

/-- A stem without separators that is saved under its own name is plain. -/
theorem isPlainStem_of_outputPath (hseparator : '/' ∉ stem.chars)
    (h : config.outputPath stem = config.outputDir.join ⟨sourceName stem.chars⟩) :
    IsPlainStem stem.chars := by
  have hjoin : config.outputDir.join stem = ⟨config.outputDir.base ++ stem.chars⟩ :=
    Path.join_eq config.outputDir hseparator
  unfold outputPath at h
  rw [Path.join_eq _ (notMem_sourceName hseparator), sourceName, ← List.append_assoc, hjoin] at h
  obtain ⟨name, hname, hdot, hbody⟩ := Path.of_withExtension_eq h
  have hbase := Path.isFolder_base config.outputDir
  generalize config.outputDir.base = folder at hbase hname hbody
  -- The last name is all of the stem.
  have hcomponent : Path.IsComponent stem.chars := by
    refine ⟨fun hnil => ?_, fun hone => ?_, hseparator⟩
    · rcases hbase with rfl | ⟨front, rfl⟩
      · rw [hnil] at hname
        cases hname
      · refine absurd hbody (Nat.ne_of_lt ?_)
        rw [hnil, List.append_nil]
        exact Path.body_length_lt (.inl rfl)
    · rcases hbase with rfl | ⟨front, rfl⟩
      · rw [hone] at hname
        cases hname
      · refine absurd hbody (Nat.ne_of_lt ?_)
        rw [hone, List.append_assoc]
        exact Path.body_length_lt (.inr rfl)
  have hlast : Path.lastName (Path.body ⟨folder ++ stem.chars⟩) = stem.chars := by
    rw [Path.body_component hcomponent, Path.lastName_component hbase hseparator]
  have hstem : name = stem.chars := by
    rw [← Path.fileName?_eq hname, hlast]
  exact ⟨hcomponent, hstem ▸ hdot⟩

/-- The path of a plain stem has the extension of source files. -/
theorem extension?_outputPath (h : IsPlainStem stem.chars) :
    (config.outputPath stem).extension? = some sourceExtension := by
  have hname : Path.fileName? ⟨config.outputDir.base ++ sourceName stem.chars⟩
      = some (sourceName stem.chars) :=
    Path.fileName?_component (Path.isFolder_base _)
      ⟨sourceName_ne (by decide), sourceName_ne (by decide), notMem_sourceName h.noSeparator⟩
      (sourceName_ne (by decide))
  rw [config.outputPath_plain stem h, Path.join_eq _ (notMem_sourceName h.noSeparator),
    Path.extension?, hname, Option.bind_some, sourceName,
    Path.splitName_append h.nonempty (by decide)]

/-- **Which models are saved under their own name.** Just for plain stems the path of a model is
the output folder joined with one name, the stem and the extension behind it. The model of a
plain stem then goes into the output folder, no other plain stem has its place, and saving it
changes no other file. -/
theorem saved_under_own_name_iff (config : Config) (stem : Path) :
    ('/' ∉ stem.chars ∧
        config.outputPath stem = config.outputDir.join ⟨sourceName stem.chars⟩
      ↔ IsPlainStem stem.chars) ∧
      (IsPlainStem stem.chars →
        Location.of (config.outputPath stem)
            = (Location.of config.outputDir).child (sourceName stem.chars) ∧
          (∀ other : Path, IsPlainStem other.chars →
            Location.of (config.outputPath other) = Location.of (config.outputPath stem) →
            other = stem) ∧
          ∀ (d : Directory) (source : String) (result : Except Failure Path) (after : Directory),
            (Store.exportSource Directory.store source (config.outputPath stem)).run.run d
              = (result, after) →
            (∀ l ≠ (Location.of config.outputDir).child (sourceName stem.chars), ∀ content,
              after.entry? l = some (.file content) ↔ d.entry? l = some (.file content)) ∧
            ∀ written, result = .ok written →
              written = config.outputPath stem ∧
                after.entry? ((Location.of config.outputDir).child (sourceName stem.chars))
                  = some (.file source)) := by
  have hplace (other : Path) (h : IsPlainStem other.chars) :
      Location.of (config.outputPath other)
        = (Location.of config.outputDir).child (sourceName other.chars) := by
    rw [config.outputPath_plain other h, Location.of_join _ (notMem_sourceName h.noSeparator),
      step_sourceName]
  refine ⟨⟨fun h => config.isPlainStem_of_outputPath stem h.1 h.2,
    fun h => ⟨h.noSeparator, config.outputPath_plain stem h⟩⟩, fun h => ⟨hplace stem h, ?_, ?_⟩⟩
  · intro other hother hsame
    rw [hplace other hother, hplace stem h] at hsame
    have hchars := List.append_cancel_right (Location.child_injective _ hsame)
    exact congrArg Path.mk hchars
  · intro d source result after hrun
    have hnames : (Location.of (config.outputPath stem)).names ≠ [] := by
      rw [hplace stem h]
      exact List.cons_ne_nil _ _
    rw [← hplace stem h]
    exact Directory.exportSource_spec (config.extension?_outputPath stem h) hnames d source hrun

/-- A working folder with an output folder, in which a base has been saved. -/
def workshop : Directory := ⟨[
  (⟨.above 0, ["out".toList]⟩, .folder),
  (⟨.above 0, ["base.scad".toList, "out".toList]⟩, .file "sphere();")]⟩

/-- A motor mount is saved beside the base. -/
theorem saved_under_own_name_motorMount :
    IsPlainStem "motor_mount".toList ∧
      ({} : Config).outputPath (.ofString "motor_mount")
        = (Path.ofString "out").join (.ofString "motor_mount.scad") ∧
      ∃ after,
        (Store.exportSource Directory.store "cube();"
            (({} : Config).outputPath (.ofString "motor_mount"))).run.run workshop
          = (.ok (.ofString "out/motor_mount.scad"), after) ∧
        after.entry? ((Location.of (.ofString "out")).child "motor_mount.scad".toList)
          = some (.file "cube();") ∧
        after.entry? ((Location.of (.ofString "out")).child "base.scad".toList)
          = some (.file "sphere();") := by
  have hplain : IsPlainStem "motor_mount".toList :=
    ⟨⟨by decide, by decide, by decide⟩, by decide⟩
  obtain ⟨hiff, hsaved⟩ := saved_under_own_name_iff {} (.ofString "motor_mount")
  have hok : ((Store.exportSource Directory.store "cube();"
      (({} : Config).outputPath (.ofString "motor_mount"))).run.run workshop).1.toOption
        = some (.ofString "out/motor_mount.scad") := by
    decide +kernel
  generalize hrun : (Store.exportSource Directory.store "cube();"
    (({} : Config).outputPath (.ofString "motor_mount"))).run.run workshop = run at hok
  obtain ⟨result, after⟩ := run
  cases result with
  | error failure => cases hok
  | ok written =>
    obtain ⟨hothers, hwritten⟩ := (hsaved hplain).2.2 workshop "cube();" _ after hrun
    refine ⟨hplain, (hiff.mpr hplain).2, after, ?_, (hwritten written rfl).2, ?_⟩
    · rw [Option.some.inj hok]
    · exact (hothers _ (by decide +kernel) _).mpr (by decide +kernel)

/-- **Parts with different names are saved over each other.** What is behind the last dot of
a stem is lost. -/
theorem saved_over :
    saveStem (.part {} { name := "gear.v1" }) (.ofString "gears.json")
        ≠ saveStem (.part {} { name := "gear.v2" }) (.ofString "gears.json") ∧
      ({} : Config).outputPath
          (saveStem (.part {} { name := "gear.v1" }) (.ofString "gears.json"))
        = .ofString "out/gear.scad" ∧
      ({} : Config).outputPath
          (saveStem (.part {} { name := "gear.v2" }) (.ofString "gears.json"))
        = .ofString "out/gear.scad" := by
  decide +kernel

end Config

end SolidTree
