/-
  SolidTree.Proofs.Codec.Decoded
  ──────────────────────────────
  **WHAT DECODERS GIVE.**

  A value may be spelled in several ways: a record as an object or as an
  array, an absent field as `null` or not at all, a bare case as its name or
  as an object.  Whatever the spelling was, what is decoded from it is finite,
  and written out again it is nested no deeper than the spelling:

      d.Yields Q         — what `d` decodes, `Q` holds of, given the room for it
      d.Fits encode P    — it satisfies `P`, and there is room for its encoding

  There is one lemma for each way of decoding and one for each way of asking
  for a field; a shape and an operator fit by the fields that they ask for.

  Main results:
    * `primitive_fits`, `operator_fits` — shapes and operators
-/
import SolidTree.Proofs.Codec.Shape

namespace SolidTree

/-! ## §1. Nesting of what is written. -/

namespace Json

theorem depth_tagged_le (name : String) (j : Json) (n : ℕ) :
    (tagged name j).depth ≤ n + 1 ↔ j.depth ≤ n := by
  rw [tagged, depth_ofFields_le, List.forall_mem_singleton]

/-- The fields of a case are two levels inside of it. -/
theorem depth_tagged_ofFields_le (name : String) (fields : List (String × Json)) (n : ℕ) :
    (tagged name (ofFields fields)).depth ≤ n + 1 + 1 ↔ ∀ f ∈ fields, f.2.depth ≤ n := by
  rw [depth_tagged_le, depth_ofFields_le]

end Json

/-! ## §2. Decoders. -/

namespace Decoder

variable {β γ : Type}

/-- Whatever is decoded has a property, which may depend on the room that there was. -/
def Yields (d : Decoder β) (Q : ℕ → β → Prop) : Prop :=
  ∀ ⦃room j b⦄, d room j = some b → Q room b

/-- Whatever is decoded satisfies a condition, and there was room for what it is encoded as. -/
def Fits (d : Decoder β) (encode : β → Json) (P : β → Prop) : Prop :=
  d.Yields fun room b => P b ∧ (encode b).depth ≤ room

variable {d : Decoder β} {Q : ℕ → β → Prop} {room : ℕ}

theorem Yields.map {f : γ → β} {d : Decoder γ} (h : d.Yields fun room c => Q room (f c)) :
    (d.map f).Yields Q := by
  intro room j b hb
  obtain ⟨c, hc, rfl⟩ := Option.map_eq_some_iff.mp hb
  exact h hc

theorem float_yields [JsonLibrary] [LawfulJsonLibrary] :
    float.Yields fun _ x => Binary64.isFinite x = true := by
  intro room j x hx
  unfold float at hx
  split at hx
  next => exact LawfulJsonLibrary.outOfRange_refused hx
  next => cases hx

theorem Yields.option (h : d.Yields Q) : d.option.Yields fun room o => ∀ b ∈ o, Q room b := by
  intro room j o ho
  unfold Decoder.option at ho
  split at ho
  next =>
    obtain rfl := Option.some.inj ho
    exact nofun
  next =>
    obtain ⟨b, hb, rfl⟩ := Option.map_eq_some_iff.mp ho
    intro c hc
    obtain rfl := Option.mem_some_iff.mp hc
    exact h hb

/-- Each result of a list comes from one of its members. -/
theorem exists_of_mapM_eq_some {f : β → Option γ} {bs : List β} {cs : List γ}
    (h : bs.mapM f = some cs) : ∀ c ∈ cs, ∃ b ∈ bs, f b = some c := by
  induction bs generalizing cs with
  | nil =>
    obtain rfl := Option.some.inj h
    exact List.forall_mem_nil _
  | cons b rest ih =>
    rw [List.mapM_cons] at h
    obtain ⟨first, hfirst, h⟩ := Option.bind_eq_some_iff.mp h
    obtain ⟨others, hothers, h⟩ := Option.bind_eq_some_iff.mp h
    obtain rfl := Option.some.inj h
    intro c hc
    rcases List.mem_cons.mp hc with rfl | hc
    · exact ⟨b, List.mem_cons_self, hfirst⟩
    · obtain ⟨b', hb', hc⟩ := ih hothers c hc
      exact ⟨b', List.mem_cons_of_mem b hb', hc⟩

/-- Each member of a list is decoded with one level less. -/
theorem Yields.list (h : d.Yields Q) :
    d.list.Yields fun room bs => ∃ inner, room = inner + 1 ∧ ∀ b ∈ bs, Q inner b := by
  intro room j bs hbs
  unfold Decoder.list at hbs
  split at hbs
  next inner items =>
    refine ⟨inner, rfl, ?_⟩
    intro b hb
    obtain ⟨j, -, hj⟩ := exists_of_mapM_eq_some hbs b hb
    exact h hj
  next => cases hbs

theorem list_fits {encode : β → Json} {P : β → Prop} (h : d.Fits encode P) :
    d.list.Fits (.ofList encode) fun bs => ∀ b ∈ bs, P b := by
  intro room j bs hbs
  obtain ⟨inner, rfl, hmembers⟩ := Yields.list h hbs
  rw [Json.depth_ofList_le]
  exact ⟨fun b hb => (hmembers b hb).1, fun b hb => (hmembers b hb).2⟩

/-! ## §3. Records and variants. -/

/-- The fields of a record are decoded with one level less. -/
theorem record_yields {names : List String} {read : Fields → Option β}
    (h : ∀ r b, read r = some b → Q (r.room + 1) b) : (record names read).Yields Q := by
  intro room j b hb
  obtain ⟨r, hr, hread⟩ := Option.bind_eq_some_iff.mp hb
  have hroom : room = r.room + 1 := by
    unfold fields? at hr
    split at hr
    next inner fields =>
      obtain ⟨named, -, hr⟩ := Option.bind_eq_some_iff.mp hr
      dsimp only at hr
      split at hr
      · obtain rfl := Option.some.inj hr
        rfl
      · cases hr
    next inner items =>
      split at hr
      · obtain rfl := Option.some.inj hr
        rfl
      · cases hr
    next => cases hr
  rw [hroom]
  exact h r b hread

/-- A case with data is decoded with one level less, a bare one with any room. -/
theorem variant_yields {bare : List (String × β)} {cases : List (String × Decoder β)}
    (hbare : ∀ c ∈ bare, ∀ room, Q room c.2)
    (hcases : ∀ c ∈ cases, c.2.Yields fun room b => Q (room + 1) b) :
    (variant bare cases).Yields Q := by
  have hlookup {δ : Type} {entries : List (String × δ)} {name : String} {x : δ}
      (h : entries.lookup name = some x) : (name, x) ∈ entries := by
    obtain ⟨before, after, rfl, -⟩ := List.lookup_eq_some_iff.mp h
    exact List.mem_append_right before List.mem_cons_self
  intro room j b hb
  unfold variant at hb
  split at hb
  next name => exact hbare _ (hlookup hb) room
  next inner name j =>
    split at hb
    next b' hb' =>
      obtain rfl := Option.some.inj hb
      exact hbare _ (hlookup hb') _
    next => cases hb
    next =>
      obtain ⟨d, hd, hb⟩ := Option.bind_eq_some_iff.mp hb
      exact hcases _ (hlookup hd) hb
  next => cases hb

namespace Fields

variable {r : Fields} {name : String} {b : β}

theorem required_yields (h : d.Yields Q) (hb : r.required name d = some b) : Q r.room b := by
  obtain ⟨j, -, hj⟩ := Option.bind_eq_some_iff.mp hb
  exact h hj

theorem optional_yields {o : Option β} (h : d.Yields Q) (ho : r.optional name d = some o) :
    ∀ b ∈ o, Q r.room b := by
  unfold optional at ho
  split at ho
  next => exact Yields.option h ho
  next =>
    split at ho
    · cases ho
    · obtain rfl := Option.some.inj ho
      exact nofun

theorem defaulted_yields {usual : β} (husual : Q r.room usual) (h : d.Yields Q)
    (hb : r.defaulted name usual d = some b) : Q r.room b := by
  unfold defaulted at hb
  split at hb
  next => exact h hb
  next =>
    obtain rfl := Option.some.inj hb
    exact husual

end Fields

variable [JsonLibrary] [LawfulJsonLibrary]

/-! ## §4. Vectors and lists of them. -/

theorem vec3_fits : Vec3.decoder.Fits Vec3.toJson fun v => AllFinite v.toList := by
  intro room j v hv
  unfold Vec3.decoder at hv
  split at hv
  next x y z hlist =>
    obtain rfl := Option.some.inj hv
    obtain ⟨inner, rfl, hfinite⟩ := Yields.list float_yields hlist
    refine ⟨hfinite, (Json.depth_ofList_le _ _ inner).mpr fun x _ => ?_⟩
    rw [Json.depth_ofFloat]
    exact Nat.zero_le inner
  next => cases hv

theorem vec2_fits : Vec2.decoder.Fits Vec2.toJson fun v => AllFinite v.scalars := by
  intro room j v hv
  unfold Vec2.decoder at hv
  split at hv
  next x y hlist =>
    obtain rfl := Option.some.inj hv
    obtain ⟨inner, rfl, hfinite⟩ := Yields.list float_yields hlist
    refine ⟨hfinite, (Json.depth_ofList_le _ _ inner).mpr fun x _ => ?_⟩
    rw [Json.depth_ofFloat]
    exact Nat.zero_le inner
  next => cases hv

theorem paths_fits : Decoder.paths.Fits .ofPaths fun _ => True := by
  have hindex : longWord.Fits (fun i : UInt64 => JsonLibrary.ofNat i.toNat) fun _ => True :=
    fun room j i _ => ⟨trivial, by simp⟩
  intro room j paths hpaths
  exact ⟨trivial, (list_fits (list_fits hindex) hpaths).2⟩

/-! ## §5. Shapes. -/

-- A record is read field by field; the reading of a truth value is not split into two.
attribute [local simp] Option.bind_eq_some_iff

theorem textShape_fits : TextShape.decoder.Fits TextShape.toJson fun t => AllFinite t.scalars := by
  refine record_yields fun r t h => ?_
  obtain ⟨text, -, size, hsize, font, -, halign, -, valign, -, spacing, hspacing, direction, -,
    language, -, script, -, segments, -, ht⟩ := by simpa using h
  subst ht
  have hfinite := Fields.required_yields float_yields hsize
  have hspaced := Fields.defaulted_yields (by simp) (Yields.option float_yields) hspacing
  constructor
  · simpa [TextShape.scalars, hfinite] using hspaced
  · rw [TextShape.toJson, Json.depth_ofFields_le]
    simp

/-- **A shape that is decoded has finite numbers and fits.** -/
theorem primitive_fits : Primitive.decoder.Fits Primitive.toJson fun s => AllFinite s.scalars := by
  refine variant_yields (List.forall_mem_nil _) ?_
  unfold Primitive.cases
  simp only [List.forall_mem_cons]
  refine ⟨?cube, ?cylinder, ?sphere, ?circle, ?square, ?text, ?polygon, ?polyhedron, ?imported,
    List.forall_mem_nil _⟩
  case cube =>
    refine record_yields fun r s h => ?_
    obtain ⟨size, hsize, rfl⟩ := by simpa using h
    obtain ⟨hfinite, hdepth⟩ := Fields.required_yields vec3_fits hsize
    refine ⟨hfinite, ?_⟩
    rw [Primitive.toJson, Json.depth_tagged_ofFields_le]
    simpa using hdepth
  case cylinder =>
    refine record_yields fun r s h => ?_
    obtain ⟨height, hheight, diameter, hdiameter, top, htop, segments, -, rfl⟩ := by simpa using h
    have hheight := Fields.required_yields float_yields hheight
    have hdiameter := Fields.required_yields float_yields hdiameter
    have htop := Fields.optional_yields float_yields htop
    refine ⟨by simpa [Primitive.scalars, hheight, hdiameter] using htop, ?_⟩
    rw [Primitive.toJson, Json.depth_tagged_ofFields_le]
    simp
  case sphere =>
    refine record_yields fun r s h => ?_
    obtain ⟨diameter, hdiameter, segments, -, rfl⟩ := by simpa using h
    have hdiameter := Fields.required_yields float_yields hdiameter
    refine ⟨by simp [Primitive.scalars, hdiameter], ?_⟩
    rw [Primitive.toJson, Json.depth_tagged_ofFields_le]
    simp
  case circle =>
    refine record_yields fun r s h => ?_
    obtain ⟨diameter, hdiameter, segments, -, rfl⟩ := by simpa using h
    have hdiameter := Fields.required_yields float_yields hdiameter
    refine ⟨by simp [Primitive.scalars, hdiameter], ?_⟩
    rw [Primitive.toJson, Json.depth_tagged_ofFields_le]
    simp
  case square =>
    refine record_yields fun r s h => ?_
    obtain ⟨width, hwidth, depth, hdepth, rfl⟩ := by simpa using h
    have hwidth := Fields.required_yields float_yields hwidth
    have hdepth := Fields.required_yields float_yields hdepth
    refine ⟨by simp [Primitive.scalars, hwidth, hdepth], ?_⟩
    rw [Primitive.toJson, Json.depth_tagged_ofFields_le]
    simp
  case text =>
    refine Yields.map fun room j t ht => ?_
    obtain ⟨hfinite, hdepth⟩ := textShape_fits ht
    exact ⟨hfinite, (Json.depth_tagged_le _ _ room).mpr hdepth⟩
  case polygon =>
    refine record_yields fun r s h => ?_
    obtain ⟨points, hpoints, paths, hpaths, convexity, -, rfl⟩ := by simpa using h
    obtain ⟨hfinite, hdepth⟩ := Fields.required_yields (list_fits vec2_fits) hpoints
    have hpaths := Fields.optional_yields paths_fits hpaths
    refine ⟨List.forall_mem_flatMap.mpr hfinite, ?_⟩
    rw [Primitive.toJson, Json.depth_tagged_ofFields_le]
    simpa [hdepth] using fun p hp => (hpaths p hp).2
  case polyhedron =>
    refine record_yields fun r s h => ?_
    obtain ⟨points, hpoints, faces, hfaces, convexity, -, rfl⟩ := by simpa using h
    obtain ⟨hfinite, hdepth⟩ := Fields.required_yields (list_fits vec3_fits) hpoints
    have hfaces := Fields.required_yields paths_fits hfaces
    refine ⟨List.forall_mem_flatMap.mpr hfinite, ?_⟩
    rw [Primitive.toJson, Json.depth_tagged_ofFields_le]
    simp [hdepth, hfaces.2]
  case imported =>
    refine record_yields fun r s h => ?_
    obtain ⟨file, -, convexity, -, layer, -, rfl⟩ := by simpa using h
    refine ⟨by simp [Primitive.scalars], ?_⟩
    rw [Primitive.toJson, Json.depth_tagged_ofFields_le]
    simp

/-! ## §6. Operators. -/

theorem extrudeOptions_fits :
    ExtrudeOptions.decoder.Fits ExtrudeOptions.toJson fun o => AllFinite [o.twist, o.scale] := by
  refine record_yields fun r o h => ?_
  obtain ⟨center, -, convexity, -, twist, htwist, slices, -, scale, hscale, rfl⟩ := by
    simpa [-Bool.exists_bool] using h
  have htwist := Fields.required_yields float_yields htwist
  have hscale := Fields.required_yields float_yields hscale
  refine ⟨by simp [htwist, hscale], ?_⟩
  rw [ExtrudeOptions.toJson, Json.depth_ofFields_le]
  simp

/-- An operator that is made of a vector. -/
theorem vector_fits {make : Vec3 Float → Operator Float} {name : String}
    (hjson : ∀ v, (make v).toJson = .tagged name v.toJson)
    (hscalars : ∀ v, (make v).scalars = v.toList) :
    (Vec3.decoder.map make).Yields fun room op =>
      AllFinite op.scalars ∧ op.toJson.depth ≤ room + 1 := by
  refine Yields.map fun room j v hv => ?_
  obtain ⟨hfinite, hdepth⟩ := vec3_fits hv
  rw [hjson, hscalars, Json.depth_tagged_le]
  exact ⟨hfinite, hdepth⟩

/-- **An operator that is decoded has finite numbers and fits.** -/
theorem operator_fits : Operator.decoder.Fits Operator.toJson fun op => AllFinite op.scalars := by
  refine variant_yields ?_ ?_
  · -- The operators without data are written as their names.
    simp only [List.forall_mem_cons]
    refine ⟨fun room => ?_, fun room => ?_, List.forall_mem_nil _⟩ <;>
      exact ⟨by simp [Operator.scalars], Nat.zero_le room⟩
  unfold Operator.cases
  simp only [List.forall_mem_cons]
  refine ⟨vector_fits (fun _ => rfl) fun _ => rfl, vector_fits (fun _ => rfl) fun _ => rfl,
    vector_fits (fun _ => rfl) fun _ => rfl, vector_fits (fun _ => rfl) fun _ => rfl,
    ?linearExtrude, ?rotateExtrude, ?offset, ?projection, ?color,
    vector_fits (fun _ => rfl) fun _ => rfl, ?render, List.forall_mem_nil _⟩
  case linearExtrude =>
    refine record_yields fun r op h => ?_
    obtain ⟨height, hheight, options, hoptions, rfl⟩ := by simpa using h
    have hheight := Fields.required_yields float_yields hheight
    obtain ⟨hfinite, hdepth⟩ := Fields.required_yields extrudeOptions_fits hoptions
    refine ⟨allFinite_cons.mpr ⟨hheight, hfinite⟩, ?_⟩
    rw [Operator.toJson, Json.depth_tagged_ofFields_le]
    simpa using hdepth
  case rotateExtrude =>
    refine record_yields fun r op h => ?_
    obtain ⟨angle, hangle, convexity, -, segments, -, rfl⟩ := by simpa using h
    have hangle := Fields.required_yields float_yields hangle
    refine ⟨by simp [Operator.scalars, hangle], ?_⟩
    rw [Operator.toJson, Json.depth_tagged_ofFields_le]
    simp
  case offset =>
    refine record_yields fun r op h => ?_
    obtain ⟨radius, hradius, delta, hdelta, chamfer, -, rfl⟩ := by simpa [-Bool.exists_bool] using h
    have hradius := Fields.optional_yields float_yields hradius
    have hdelta := Fields.optional_yields float_yields hdelta
    refine ⟨by simpa [Operator.scalars] using ⟨hradius, hdelta⟩, ?_⟩
    rw [Operator.toJson, Json.depth_tagged_ofFields_le]
    simp
  case projection =>
    refine record_yields fun r op h => ?_
    obtain ⟨cut, -, rfl⟩ := by simpa [-Bool.exists_bool] using h
    refine ⟨by simp [Operator.scalars], ?_⟩
    rw [Operator.toJson, Json.depth_tagged_ofFields_le]
    simp
  case color =>
    refine record_yields fun r op h => ?_
    obtain ⟨name, -, alpha, halpha, rfl⟩ := by simpa using h
    have halpha := Fields.optional_yields float_yields halpha
    refine ⟨by simpa [Operator.scalars] using halpha, ?_⟩
    rw [Operator.toJson, Json.depth_tagged_ofFields_le]
    simp
  case render =>
    refine record_yields fun r op h => ?_
    obtain ⟨convexity, -, rfl⟩ := by simpa using h
    refine ⟨by simp [Operator.scalars], ?_⟩
    rw [Operator.toJson, Json.depth_tagged_ofFields_le]
    simp

end Decoder

end SolidTree
