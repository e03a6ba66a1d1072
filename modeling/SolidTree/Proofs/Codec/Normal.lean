/-
  SolidTree.Proofs.Codec.Normal
  ─────────────────────────────
  **READING AND WRITING BRINGS A TEXT INTO NORMAL FORM.**

  The texts that are read as trees are far more than those that are written.
  A tree that was read has no finish, its numbers are finite, and as JSON it
  is nested no deeper than the text it came from; that is all a tree needs to
  be read back from its own text:

      Decoder.outer_fits     — one node, given the nodes right below
      Decoder.decoderTo_fits — all nodes, level by level
      Node.read?_normal      — texts

  The kind of a node is decoded before its tag, so what is said of a kind is
  said of its node with every tag.
-/
import SolidTree.Proofs.Codec.Decoded
import SolidTree.Proofs.Codec.Tree

namespace SolidTree

/-! ## §1. Nesting of a node. -/

theorem Tag.depth_toJson_le (tag : Tag) (kind : Json) (n : ℕ) :
    (tag.toJson kind).depth ≤ n + 1 ↔ kind.depth ≤ n := by
  obtain ⟨modifier, comment⟩ := tag
  cases comment with
  | none =>
    rw [Tag.toJson, Json.depth_ofFields_le]
    simp
  | some comment =>
    rw [Tag.toJson, Json.depth_ofFields_le]
    simp

namespace Decoder

attribute [local simp] Option.bind_eq_some_iff

variable [JsonLibrary] {node : Decoder (Node Float)} {P : Node Float → Prop}

/-! ## §2. Members. -/

theorem slot_fits (h : node.Fits Node.toJson P) :
    (Slot.decoder node).Fits Slot.toJson fun s => P s.node := by
  refine record_yields fun r s hs => ?_
  obtain ⟨field, -, n, hn, rfl⟩ := by simpa using hs
  obtain ⟨hP, hdepth⟩ := Fields.required_yields h hn
  refine ⟨hP, ?_⟩
  rw [Slot.toJson, Json.depth_ofFields_le]
  simpa using hdepth

theorem slots_fits (h : node.Fits Node.toJson P) :
    (Slot.decoder node).list.Fits (fun slots => .array (slotsToJson slots))
      fun slots => ∀ s ∈ slots, P s.node := by
  simp only [slotsToJson_eq_map]
  exact list_fits (slot_fits h)

theorem nodes_fits (h : node.Fits Node.toJson P) :
    node.list.Fits (fun ns => .array (nodesToJson ns)) fun ns => ∀ n ∈ ns, P n := by
  simp only [nodesToJson_eq_map]
  exact list_fits h

/-- A part that is decoded has no finish. -/
theorem assembly_fits (h : node.Fits Node.toJson P) :
    (Assembly.decoder node).Fits Assembly.toJson fun p =>
      p.finish = none ∧ ∀ s ∈ p.children ++ p.holes ++ p.miscellaneous, P s.node := by
  refine record_yields fun r p hp => ?_
  obtain ⟨name, -, children, hchildren, holes, hholes, miscellaneous, hmiscellaneous, rfl⟩ := by
    simpa using hp
  obtain ⟨hchildren, hdepthChildren⟩ := Fields.required_yields (slots_fits h) hchildren
  obtain ⟨hholes, hdepthHoles⟩ := Fields.required_yields (slots_fits h) hholes
  obtain ⟨hmiscellaneous, hdepthMiscellaneous⟩ :=
    Fields.required_yields (slots_fits h) hmiscellaneous
  constructor
  · refine ⟨rfl, ?_⟩
    simp only [List.forall_mem_append]
    exact ⟨⟨hchildren, hholes⟩, hmiscellaneous⟩
  · rw [Assembly.toJson, Assembly.fieldsJson, Json.depth_ofFields_le]
    simp [hdepthChildren, hdepthHoles, hdepthMiscellaneous]

/-! ## §3. Nodes, given the nodes right below. -/

/-- The node has finite numbers and no finish, and the nodes right below satisfy a condition. -/
def IsPlainOver (P : Node Float → Prop) (n : Node Float) : Prop :=
  (n.HasNoFinish ∧ n.HasFiniteScalars) ∧ ∀ c ∈ n.subnodes, P c

variable [LawfulJsonLibrary]

/-- What is decoded of a kind fits with every tag. -/
theorem kind_yields (h : node.Fits Node.toJson P) :
    (variant [] (Node.cases node)).Yields fun room ofTag =>
      ∀ tag, IsPlainOver P (ofTag tag) ∧ (ofTag tag).toJson.depth ≤ room + 1 := by
  have hset (op : SetOperation) :
      (node.list.map fun operands tag => Node.compose tag op operands).Yields fun room ofTag =>
        ∀ tag, IsPlainOver P (ofTag tag) ∧ (ofTag tag).toJson.depth ≤ room + 2 := by
    refine Yields.map fun room j operands hoperands tag => ?_
    obtain ⟨hP, hdepth⟩ := nodes_fits h hoperands
    refine ⟨⟨⟨trivial, trivial⟩, hP⟩, ?_⟩
    rw [Node.toJson, Tag.depth_toJson_le, Json.depth_tagged_le]
    exact hdepth
  refine variant_yields (List.forall_mem_nil _) ?_
  unfold Node.cases
  simp only [List.forall_mem_cons]
  refine ⟨?leaf, ?apply, hset .union, hset .difference, hset .intersection, ?part,
    List.forall_mem_nil _⟩
  case leaf =>
    refine Yields.map fun room j shape hshape tag => ?_
    obtain ⟨hfinite, hdepth⟩ := primitive_fits hshape
    refine ⟨⟨⟨trivial, hfinite⟩, List.forall_mem_nil _⟩, ?_⟩
    rw [Node.toJson, Tag.depth_toJson_le, Json.depth_tagged_le]
    exact hdepth
  case apply =>
    refine record_yields fun r ofTag hofTag => ?_
    obtain ⟨op, hop, children, hchildren, rfl⟩ := by simpa using hofTag
    obtain ⟨hfinite, hdepthOp⟩ := Fields.required_yields operator_fits hop
    obtain ⟨hP, hdepthChildren⟩ := Fields.required_yields (nodes_fits h) hchildren
    intro tag
    refine ⟨⟨⟨trivial, hfinite⟩, hP⟩, ?_⟩
    rw [Node.toJson, Tag.depth_toJson_le, Json.depth_tagged_ofFields_le]
    simp [hdepthOp, hdepthChildren]
  case part =>
    refine Yields.map fun room j p hp tag => ?_
    obtain ⟨⟨hfinish, hP⟩, hdepth⟩ := assembly_fits h hp
    refine ⟨⟨⟨hfinish, trivial⟩, List.forall_mem_map.mpr hP⟩, ?_⟩
    rw [Node.toJson, Tag.depth_toJson_le, Json.depth_tagged_le]
    exact hdepth

/-- **A node that is decoded has finite numbers and no finish, and fits.** -/
theorem outer_fits (h : node.Fits Node.toJson P) :
    (Node.outerDecoder node).Fits Node.toJson (IsPlainOver P) := by
  refine record_yields fun r n hn => ?_
  obtain ⟨ofTag, hofTag, modifier, -, comment, -, rfl⟩ := by simpa using hn
  exact Fields.required_yields (kind_yields h) hofTag _

/-! ## §4. Trees. -/

/-- **A tree that is decoded has finite numbers and no finish all over, and fits.** -/
theorem decoderTo_fits (levels : ℕ) :
    (Node.decoderTo levels).Fits Node.toJson fun n =>
      n.Everywhere Node.subnodes fun n => n.HasNoFinish ∧ n.HasFiniteScalars := by
  induction levels with
  | zero =>
    -- No node is decoded without a level.
    exact nofun
  | succ levels ih =>
    intro room j n hn
    obtain ⟨⟨here, there⟩, hdepth⟩ := outer_fits ih hn
    exact ⟨.intro here there, hdepth⟩

end Decoder

/-! ## §5. Texts. -/

namespace Node

/-- **A text that is read gives a tree that is read back from its own text.**  With any lawful
library, the text that it is written as is accepted again, compact or pretty, with an equal
tree, which is written as the same text. -/
theorem read?_normal [JsonLibrary] [LawfulJsonLibrary] {source : String} {n : Node Float}
    (h : read? source = some n) :
    (∃ m, read? (JsonLibrary.compactText n.toJson) = some m ∧ m = n ∧
      JsonLibrary.compactText m.toJson = JsonLibrary.compactText n.toJson) ∧
    ∃ m, read? (JsonLibrary.prettyText n.toJson) = some m ∧ m = n ∧
      JsonLibrary.prettyText m.toJson = JsonLibrary.prettyText n.toJson := by
  -- The text gave a value that there was room for, so there is room for the tree's own one.
  obtain ⟨j, -, hj⟩ := Option.bind_eq_some_iff.mp h
  obtain ⟨hplain, hdepth⟩ := Decoder.decoderTo_fits JsonLibrary.levels hj
  have hfinish : n.Everywhere subnodes HasNoFinish := hplain.imp fun _ => And.left
  have hfinite : n.Everywhere subnodes HasFiniteScalars := hplain.imp fun _ => And.right
  have htree := Faithful.tree hfinish JsonLibrary.levels
  have hdecoded : decoder JsonLibrary.levels n.toJson = some n :=
    (htree.restores _ le_rfl).mpr ⟨hfinite, hdepth⟩
  obtain ⟨hcompact, hpretty⟩ := read?_text htree.printed
  exact ⟨⟨n, hcompact.trans hdecoded, rfl, rfl⟩, n, hpretty.trans hdecoded, rfl, rfl⟩

/-! A hull of one sphere, as it may be spelled: with arrays for objects, `null` as the data of
a name, a field that nothing asks for, and nothing for what is as usual. -/

def terseHull : String :=
  " [\x7b\"Transform\": [\x7b\"Hull\": null\x7d, [\x7b\"x\": [], \"kind\": \x7b\"Primitive\":
    \x7b\"Sphere\": [50e-2, 8]\x7d\x7d\x7d]]\x7d] "

/-- The text that it is written as. -/
def normalHull : String :=
  "\x7b\"kind\":\x7b\"Transform\":\x7b\"op\":\"Hull\",\"children\":[" ++
  "\x7b\"kind\":\x7b\"Primitive\":" ++
  "\x7b\"Sphere\":\x7b\"diameter\":0.5,\"segments\":8\x7d\x7d\x7d," ++
  "\"modifier\":\"None\"\x7d]\x7d\x7d,\"modifier\":\"None\"\x7d"

attribute [local instance] JsonLibrary.nearest JsonLibrary.lawful_nearest

/-- The hull is read from either text, and both are of one tree. -/
theorem read?_normal_hull :
    ∃ n, read? terseHull = some n ∧ JsonLibrary.compactText n.toJson = normalHull ∧
      read? normalHull = some n := by
  have hread : (read? terseHull).map (fun n => JsonLibrary.compactText n.toJson)
      = some normalHull := by decide +kernel
  obtain ⟨n, hn, htext⟩ := Option.map_eq_some_iff.mp hread
  obtain ⟨⟨m, hm, rfl, -⟩, -⟩ := read?_normal hn
  rw [htext] at hm
  exact ⟨m, hn, htext, hm⟩

end Node

end SolidTree
