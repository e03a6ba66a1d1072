/-
  SolidTree.Proofs.Codec.Faithful
  ───────────────────────────────
  **VALUES DECODED FROM WHAT THEY ARE ENCODED AS.**

  A value of JSON stands faithfully for what it encodes if it is decoded to
  just that, on a condition of its own and as long as there is room for its
  nesting:

      Faithful bound j d b P  —  d room j = some b  ↔  P ∧ j.depth ≤ room

  There is one lemma for each way that values are encoded: the plain ones,
  lists, records and variants.  A condition is needed for doubles alone, as
  an infinite one is written as if it were absent.  The bound on the room is
  for trees, which are decoded down to a level.

  The library is any lawful one; its laws are used for numbers alone.
-/
import Mathlib.Order.MinMax
import Mathlib.Tactic.Simproc.ExistsAndEq
import SolidTree.Codec.Shape
import SolidTree.Proofs.Json.Laws

namespace SolidTree

/-! ## §1. Nesting. -/

namespace Json

mutual

/-- How deep arrays and objects are nested in a value. -/
def depth : Json → ℕ
  | .array items => depthOfItems items + 1
  | .object fields => depthOfFields fields + 1
  | _ => 0

/-- How deep the values of a list are nested. -/
def depthOfItems : List Json → ℕ
  | [] => 0
  | j :: rest => max j.depth (depthOfItems rest)

/-- How deep the values of some fields are nested. -/
def depthOfFields : List (Option String × Json) → ℕ
  | [] => 0
  | (_, j) :: rest => max j.depth (depthOfFields rest)

end

theorem depthOfItems_le (js : List Json) (n : ℕ) :
    depthOfItems js ≤ n ↔ ∀ j ∈ js, j.depth ≤ n := by
  induction js with
  | nil => simp [depthOfItems]
  | cons j rest ih => rw [depthOfItems, max_le_iff, ih, List.forall_mem_cons]

theorem depthOfFields_le (fields : List (Option String × Json)) (n : ℕ) :
    depthOfFields fields ≤ n ↔ ∀ f ∈ fields, f.2.depth ≤ n := by
  induction fields with
  | nil => simp [depthOfFields]
  | cons f rest ih => rw [depthOfFields, max_le_iff, ih, List.forall_mem_cons]

theorem depth_ofList_le {β : Type} (encode : β → Json) (items : List β) (n : ℕ) :
    (ofList encode items).depth ≤ n + 1 ↔ ∀ b ∈ items, (encode b).depth ≤ n := by
  rw [ofList, depth, Nat.succ_le_succ_iff, depthOfItems_le, List.forall_mem_map]

theorem depth_ofFields_le (fields : List (String × Json)) (n : ℕ) :
    (ofFields fields).depth ≤ n + 1 ↔ ∀ f ∈ fields, f.2.depth ≤ n := by
  rw [ofFields, depth, Nat.succ_le_succ_iff, depthOfFields_le, List.forall_mem_map]

@[simp] theorem depth_ofString (s : String) : (ofString s).depth = 0 := rfl

@[simp] theorem depth_boolean (b : Bool) : (boolean b).depth = 0 := by simp only [depth]

@[simp] theorem depth_ofOption_le {β : Type} {encode : β → Json} {o : Option β} {n : ℕ} :
    (ofOption encode o).depth ≤ n ↔ ∀ b ∈ o, (encode b).depth ≤ n := by
  cases o with
  | none => simp [ofOption, depth]
  | some b => simp [ofOption]

variable [JsonLibrary]

section

variable [LawfulJsonLibrary]

@[simp] theorem depth_ofFloat (x : Float) : (JsonLibrary.ofFloat x).depth = 0 := by
  cases h : Binary64.isFinite x with
  | false =>
    rw [LawfulJsonLibrary.notFinite_null h]
    rfl
  | true =>
    obtain ⟨written, hprinted, -⟩ := LawfulJsonLibrary.finite_reads_back h
    rw [hprinted]
    rfl

@[simp] theorem depth_ofNat (n : ℕ) : (JsonLibrary.ofNat n).depth = 0 := by
  obtain ⟨written, hprinted, -⟩ := LawfulJsonLibrary.natural_reads_back n.lt_succ_self
  rw [hprinted]
  rfl

@[simp] theorem depth_ofWord (n : UInt32) : (ofWord n).depth = 0 := depth_ofNat n.toNat

end

attribute [simp] IsPrinted.double IsPrinted.natural

@[simp] theorem isPrinted_ofWord (n : UInt32) : (ofWord n).IsPrinted := .natural n.toNat

@[simp] theorem isPrinted_ofString (s : String) : (ofString s).IsPrinted := .text s

@[simp] theorem isPrinted_boolean (b : Bool) : (boolean b).IsPrinted := .boolean b

@[simp] theorem isPrinted_ofOption {β : Type} {encode : β → Json} {o : Option β}
    (h : ∀ b ∈ o, (encode b).IsPrinted) : (ofOption encode o).IsPrinted := by
  cases o with
  | none => exact .null
  | some b => exact h b rfl

theorem isPrinted_ofFields {fields : List (String × Json)} (h : ∀ f ∈ fields, f.2.IsPrinted) :
    (ofFields fields).IsPrinted := by
  refine .object ?_ ?_
  · rw [List.forall_mem_map]
    exact fun _ _ => rfl
  · rw [List.forall_mem_map]
    exact h

end Json

/-! ## §2. Plain values. -/

namespace Decoder

variable {β γ δ : Type} {room : ℕ}

theorem map_id (d : Decoder β) : d.map id = d := by
  funext room j
  exact Option.map_id_apply

theorem map_map (g : γ → δ) (f : β → γ) (d : Decoder β) : (d.map f).map g = d.map (g ∘ f) := by
  funext room j
  exact Option.map_map g f (d room j)

/-- What is made of a record is made of its fields. -/
theorem map_record (f : β → γ) (names : List String) (read : Fields → Option β) :
    (record names read).map f = record names fun r => (read r).map f := by
  funext room j
  exact Option.map_bind

@[simp] theorem boolean_boolean (b : Bool) : boolean room (.boolean b) = some b := rfl

@[simp] theorem text_ofString (s : String) : text room (.ofString s) = some s := rfl

/-- A decoder that takes nothing for absent values. -/
def Refuses (d : Decoder β) : Prop := ∀ room, d room .null = none

/-- An absent value stands for itself, and so does one that is there, which is not written as
if it were absent. -/
theorem option_ofOption {d : Decoder β} (hnull : d.Refuses) {encode : β → Json} {o : Option β} :
    d.option room (.ofOption encode o) = some o ↔ ∀ b ∈ o, d room (encode b) = some b := by
  cases o with
  | none => simp [Json.ofOption, option]
  | some b =>
    have hall : (∀ c ∈ some b, d room (encode c) = some c) ↔ d room (encode b) = some b := by simp
    rw [Json.ofOption, hall]
    generalize encode b = j
    cases j with
    | null => simp [option, hnull room]
    | _ => simp [option]

@[simp] theorem option_text_ofString (s : String) :
    Decoder.text.option room (.ofString s) = some (some s) := rfl

@[simp] theorem option_text (o : Option String) :
    Decoder.text.option room (.ofOption .ofString o) = some o := by
  rw [option_ofOption fun _ => rfl]
  simp

/-- A value that has a name stands for itself if no other has its name. -/
theorem named_ofString {values : List β} {name : β → String} {b : β}
    (h : (values.map fun b => (name b, b)).lookup (name b) = some b) :
    named values name room (.ofString (name b)) = some b := by
  simp [named, variant, Json.ofString, h]

/-! ## §3. Numbers. -/

section

variable [JsonLibrary] [LawfulJsonLibrary]

/-- A double is decoded if it is finite. -/
@[simp] theorem float_ofFloat {x : Float} :
    Decoder.float room (JsonLibrary.ofFloat x) = some x ↔ Binary64.isFinite x = true := by
  cases h : Binary64.isFinite x with
  | false => simp [LawfulJsonLibrary.notFinite_null h, Decoder.float]
  | true =>
    obtain ⟨written, hprinted, hread⟩ := LawfulJsonLibrary.finite_reads_back h
    simp [hprinted, Decoder.float, hread]

theorem natural_ofNat {n limit : ℕ} (h : n < limit) :
    natural limit room (JsonLibrary.ofNat n) = some n := by
  obtain ⟨written, hprinted, hread⟩ := LawfulJsonLibrary.natural_reads_back h
  rw [hprinted]
  exact hread

@[simp] theorem word_ofWord (n : UInt32) : word room (.ofWord n) = some n := by
  rw [word, map, Json.ofWord, natural_ofNat n.toNat_lt, Option.map_some, UInt32.ofNat_toNat]

@[simp] theorem longWord_ofNat (n : UInt64) :
    longWord room (JsonLibrary.ofNat n.toNat) = some n := by
  rw [longWord, map, natural_ofNat n.toNat_lt, Option.map_some, UInt64.ofNat_toNat]

@[simp] theorem option_float {o : Option Float} :
    Decoder.float.option room (.ofOption JsonLibrary.ofFloat o) = some o
      ↔ ∀ x ∈ o, Binary64.isFinite x = true := by
  rw [option_ofOption fun _ => rfl]
  simp

@[simp] theorem option_word (o : Option UInt32) :
    Decoder.word.option room (.ofOption .ofWord o) = some o := by
  rw [option_ofOption fun _ => rfl]
  simp

end

/-! ## §4. Members and fields. -/

theorem mapM_map_eq_some {β γ : Type} {f : β → γ} {g : γ → Option β} {xs : List β} :
    (xs.map f).mapM g = some xs ↔ ∀ x ∈ xs, g (f x) = some x := by
  induction xs with
  | nil => simp
  | cons x xs ih =>
    rw [List.map_cons, List.mapM_cons, List.forall_mem_cons, ← ih]
    simp [Option.bind_eq_some_iff]

theorem distinct_of_nodup {fields : List (String × Json)} (h : (fields.map Prod.fst).Nodup) :
    Decoder.distinct fields = true := by
  induction fields with
  | nil => rfl
  | cons f rest ih =>
    rw [List.map_cons, List.nodup_cons] at h
    have hnone : rest.lookup f.1 = none := by
      rw [List.lookup_eq_none_iff]
      intro g hg
      exact bne_iff_ne.mpr fun heq => h.1 (heq ▸ List.mem_map_of_mem hg)
    rw [Decoder.distinct, hnone, ih h.2]
    rfl

/-- All fields of a record are found. -/
theorem fields?_ofFields {fields : List (String × Json)} {names : List String}
    (hsub : (fields.map Prod.fst).Sublist names) (hnames : names.Nodup) (room : ℕ) :
    Decoder.fields? names (room + 1) (.ofFields fields) = some ⟨room, false, fields⟩ := by
  have hnamed : (fields.map fun f => (some f.1, f.2)).mapM
      (fun f => f.1.map fun name => (name, f.2)) = some fields :=
    mapM_map_eq_some.mpr fun _ _ => rfl
  have hknown : fields.filter (fun f => names.contains f.1) = fields :=
    List.filter_eq_self.mpr fun f hf =>
      List.contains_iff_mem.mpr (hsub.subset (List.mem_map_of_mem hf))
  have hdistinct := distinct_of_nodup (hnames.sublist hsub)
  refine (congrArg (Option.bind · _) hnamed).trans ?_
  show (if Decoder.distinct (fields.filter fun f => names.contains f.1) then _ else _) = _
  rw [hknown, hdistinct]
  rfl

end Decoder

/-! ## §5. Faithful values. -/

/-- The value is decoded to what it encodes on a condition, as long as there is room. -/
structure Faithful [JsonLibrary] {β : Type} (bound : ℕ) (j : Json) (d : Decoder β) (b : β) (P : Prop) : Prop where
  printed : j.IsPrinted
  restores : ∀ room ≤ bound, d room j = some b ↔ P ∧ j.depth ≤ room

namespace Faithful

variable [JsonLibrary] {β γ : Type} {bound : ℕ} {j : Json} {d : Decoder β} {b : β} {P Q : Prop}

theorem congr (h : Faithful bound j d b P) (hiff : P ↔ Q) : Faithful bound j d b Q :=
  ⟨h.printed, fun room hroom => by rw [h.restores room hroom, hiff]⟩

theorem mono (h : Faithful bound j d b P) {bound' : ℕ} (hle : bound' ≤ bound) :
    Faithful bound' j d b P :=
  ⟨h.printed, fun room hroom => h.restores room (hroom.trans hle)⟩

theorem map (h : Faithful bound j d b P) {f : β → γ} (hf : Function.Injective f) :
    Faithful bound j (d.map f) (f b) P := by
  refine ⟨h.printed, fun room hroom => ?_⟩
  rw [← h.restores room hroom, Decoder.map, Option.map_eq_some_iff]
  constructor
  · rintro ⟨c, hc, heq⟩
    rwa [hf heq] at hc
  · exact fun hb => ⟨b, hb, rfl⟩

/-- A double stands for itself if it is finite. -/
theorem float [LawfulJsonLibrary] (x : Float) :
    Faithful bound (JsonLibrary.ofFloat x) .float x (Binary64.isFinite x = true) :=
  ⟨by simp, by simp⟩

theorem longWord [LawfulJsonLibrary] (n : UInt64) :
    Faithful bound (JsonLibrary.ofNat n.toNat) .longWord n True :=
  ⟨by simp, by simp⟩

/-! ## §6. Lists. -/

theorem list {encode : β → Json} {P : β → Prop} {items : List β}
    (h : ∀ b ∈ items, Faithful bound (encode b) d b (P b)) :
    Faithful bound (.ofList encode items) d.list items (∀ b ∈ items, P b) := by
  refine ⟨.array ?_, fun room hroom => ?_⟩
  · rw [List.forall_mem_map]
    exact fun b hb => (h b hb).printed
  · cases room with
    | zero => simp [Decoder.list, Json.ofList, Json.depth]
    | succ room =>
      show (items.map encode).mapM (d room) = some items ↔ _
      rw [Json.depth_ofList_le, Decoder.mapM_map_eq_some, ← forall₂_and]
      exact forall₂_congr fun b hb => (h b hb).restores room (Nat.le_of_succ_le hroom)

/-! ## §7. Records. -/

theorem record {fields : List (String × Json)} {names : List String}
    {read : Decoder.Fields → Option β} (hsub : (fields.map Prod.fst).Sublist names)
    (hnames : names.Nodup) (hprinted : ∀ f ∈ fields, f.2.IsPrinted)
    (h : ∀ room ≤ bound, read ⟨room, false, fields⟩ = some b ↔ P ∧ ∀ f ∈ fields, f.2.depth ≤ room) :
    Faithful (bound + 1) (.ofFields fields) (.record names read) b P := by
  refine ⟨Json.isPrinted_ofFields hprinted, fun room hroom => ?_⟩
  cases room with
  | zero => simp [Decoder.record, Decoder.fields?, Json.ofFields, Json.depth]
  | succ room =>
    rw [Decoder.record, Decoder.fields?_ofFields hsub hnames, Option.bind_some, Json.depth_ofFields_le]
    exact h room (Nat.le_of_succ_le_succ hroom)

/-! ## §8. Variants. -/

variable {named : List (String × β)} {cases : List (String × Decoder β)} {name : String}

/-- A case with data, of which something is made. -/
theorem tagged_map {f : β → γ} {c : γ} (hnamed : named.lookup name = none)
    (hcase : cases.lookup name = some d) (h : Faithful bound j (d.map f) c P) :
    Faithful (bound + 1) (.tagged name j) ((Decoder.variant named cases).map f) c P := by
  refine ⟨Json.isPrinted_ofFields (by simpa using h.printed), fun room hroom => ?_⟩
  cases room with
  | zero => simp [Json.tagged, Json.ofFields, Decoder.variant, Decoder.map, Json.depth]
  | succ room =>
    rw [Json.tagged, Json.depth_ofFields_le, List.forall_mem_singleton,
      ← h.restores room (Nat.le_of_succ_le_succ hroom)]
    simp [Json.ofFields, Decoder.variant, Decoder.map, hnamed, hcase]

theorem tagged (hnamed : named.lookup name = none) (hcase : cases.lookup name = some d)
    (h : Faithful bound j d b P) :
    Faithful (bound + 1) (.tagged name j) (.variant named cases) b P := by
  rw [← Decoder.map_id (.variant named cases)]
  rw [← d.map_id] at h
  exact tagged_map hnamed hcase h

theorem bare (hnamed : named.lookup name = some b) :
    Faithful bound (.ofString name) (.variant named cases) b True :=
  ⟨.text name, fun room _ => by simp [Json.ofString, Decoder.variant, hnamed, Json.depth]⟩

end Faithful

end SolidTree
