/-
  SolidTree.Proofs.Codec.Tree
  ───────────────────────────
  **TREES READ BACK FROM THEIR TEXT.**

  A node stands for itself if its own numbers are finite and the nodes right
  below stand for themselves; so a tree without finishes stands for itself if
  all of its numbers are finite.  It is read back from its text just if, in
  addition, the text is not nested more deeply than may be entered:

      Faithful.outer       — one node, given the nodes right below
      Faithful.tree        — all nodes, level by level
      Node.read?_toJson    — compact and pretty texts

  The kind of a node is decoded to a node that still waits for its tag.  Two
  of them may be equal at one tag and not at others, so it is the decoder
  with the tag put in that is shown to be faithful.
-/
import SolidTree.Codec.Tree
import SolidTree.Proofs.Codec.Shape
import SolidTree.Proofs.Json.Nearest
import SolidTree.Proofs.Tree.Everywhere

namespace SolidTree

/-! ## §1. Members as JSON. -/

section

variable [JsonLibrary]

/-- A member as JSON. -/
def Slot.toJson (s : Slot (Node Float)) : Json :=
  .ofFields [("field", .ofOption .ofString s.field), ("node", s.node.toJson)]

theorem slotsToJson_eq_map (slots : List (Slot (Node Float))) :
    slotsToJson slots = slots.map Slot.toJson := by
  induction slots with
  | nil => rfl
  | cons s rest ih => rw [slotsToJson, ih, List.map_cons, Slot.toJson]

end

/-! ## §2. Nodes, given the nodes right below. -/

/-- The numbers that a node has besides those of the nodes below it are finite. -/
def Node.HasFiniteScalars : Node Float → Prop
  | .leaf _ shape => AllFinite shape.scalars
  | .apply _ op _ => AllFinite op.scalars
  | .compose .. | .part .. => True

namespace Faithful

open Decoder

attribute [local simp] Fields.required Fields.optional Fields.defaulted Fields.get? List.lookup_cons
  Option.bind_eq_some_iff

variable [JsonLibrary] {bound : ℕ} {node : Decoder (Node Float)} {P : Node Float → Prop}

theorem slot {s : Slot (Node Float)} (h : Faithful bound s.node.toJson node s.node (P s.node)) :
    Faithful (bound + 1) s.toJson (Slot.decoder node) s (P s.node) := by
  refine record (.refl _) (by decide) (by simp [h.printed]) fun room hroom => ?_
  obtain ⟨field, n⟩ := s
  simp [h.restores room hroom]

theorem slots {slots : List (Slot (Node Float))}
    (h : ∀ s ∈ slots, Faithful bound s.node.toJson node s.node (P s.node)) :
    Faithful bound (.array (slotsToJson slots)) (Slot.decoder node).list slots
      (∀ s ∈ slots, P s.node) := by
  rw [slotsToJson_eq_map]
  exact list fun s hs => (slot (h s hs)).mono (Nat.le_add_right ..)

theorem nodes {ns : List (Node Float)} (h : ∀ n ∈ ns, Faithful bound n.toJson node n (P n)) :
    Faithful bound (.array (nodesToJson ns)) node.list ns (∀ n ∈ ns, P n) := by
  rw [nodesToJson_eq_map]
  exact list h

/-- A part without a finish stands for itself if its members do. -/
theorem assembly {p : Part Float} (hfinish : p.finish = none)
    (h : ∀ s ∈ p.children ++ p.holes ++ p.miscellaneous,
      Faithful bound s.node.toJson node s.node (P s.node)) :
    Faithful (bound + 1) p.toJson (Assembly.decoder node) p
      (∀ s ∈ p.children ++ p.holes ++ p.miscellaneous, P s.node) := by
  obtain ⟨name, children, holes, miscellaneous, finish⟩ := p
  obtain rfl : finish = none := hfinish
  rw [List.forall_mem_append, List.forall_mem_append] at h ⊢
  have hchildren := slots h.1.1
  have hholes := slots h.1.2
  have hmiscellaneous := slots h.2
  refine record (.refl _) (by decide) ?_ fun room hroom => ?_
  · simp [hchildren.printed, hholes.printed, hmiscellaneous.printed]
  · simp [hchildren.restores room hroom, hholes.restores room hroom,
      hmiscellaneous.restores room hroom]
    tauto

/-- A node stands for itself if its kind does with the tag put in. -/
theorem ofKind {tag : Tag} {kind : Json} {n : Node Float} {Q : Prop}
    (h : Faithful bound kind ((variant [] (Node.cases node)).map (· tag)) n Q) :
    Faithful (bound + 1) (tag.toJson kind) (Node.outerDecoder node) n Q := by
  obtain ⟨modifier, comment⟩ := tag
  have hmodifier (room : ℕ) :
      named Modifier.all Modifier.name room (.ofString modifier.name) = some modifier :=
    named_ofString (by cases modifier <;> rfl)
  cases comment with
  | none =>
    refine record (List.sublist_append_left ["kind", "modifier"] ["comment"]) (by decide)
      (by simp [h.printed]) fun room hroom => ?_
    have hkind := h.restores room hroom
    simpa [Decoder.map, hmodifier] using hkind
  | some comment =>
    refine record (.refl _) (by decide) (by simp [h.printed]) fun room hroom => ?_
    have hkind := h.restores room hroom
    simpa [Decoder.map, hmodifier] using hkind

theorem ofCase {d : Decoder (Tag → Node Float)} {name : String} {data : Json} {tag : Tag}
    {n : Node Float} {Q : Prop} (hcase : (Node.cases node).lookup name = some d)
    (h : Faithful bound data (d.map (· tag)) n Q) :
    Faithful (bound + 1) (tag.toJson (.tagged name data)) (Node.outerDecoder node) n Q :=
  ofKind ((tagged_map rfl hcase h).mono (Nat.le_add_right ..))

/-- A node that is made of its tag and one more thing. -/
theorem ofData {β : Type} {d : Decoder β} {make : β → Tag → Node Float} {name : String}
    {data : Json} {b : β} {tag : Tag} {Q : Prop}
    (hcase : (Node.cases node).lookup name = some (d.map make))
    (hmake : Function.Injective (make · tag)) (h : Faithful bound data d b Q) :
    Faithful (bound + 1) (tag.toJson (.tagged name data)) (Node.outerDecoder node) (make b tag)
      Q := by
  refine ofCase hcase ?_
  rw [Decoder.map_map]
  exact h.map hmake

theorem leaf [LawfulJsonLibrary] (tag : Tag) (shape : Primitive Float) :
    Faithful (bound + 1) (Node.leaf tag shape).toJson (Node.outerDecoder node) (.leaf tag shape)
      (AllFinite shape.scalars) := by
  have hcase : (Node.cases node).lookup "Primitive"
      = some (Primitive.decoder.map fun shape tag => .leaf tag shape) := rfl
  have hshape := (primitive shape).mono (Nat.le_add_right bound 2)
  exact ofData hcase (fun _ _ heq => (Node.leaf.inj heq).2) hshape

theorem apply [LawfulJsonLibrary] (tag : Tag) (op : Operator Float) {children : List (Node Float)}
    (h : ∀ c ∈ children, Faithful bound c.toJson node c (P c)) :
    Faithful (bound + 1) (Node.apply tag op children).toJson (Node.outerDecoder node)
      (.apply tag op children) (AllFinite op.scalars ∧ ∀ c ∈ children, P c) := by
  have hop := (operator op).mono (Nat.le_add_right bound 3)
  have hchildren := nodes h
  refine ofCase rfl ?_
  rw [map_record]
  refine mono ?_ (Nat.le_add_right bound 1)
  refine record (.refl _) (by decide) ?_ fun room hroom => ?_
  · simp [hop.printed, hchildren.printed]
  · simp [hop.restores room hroom, hchildren.restores room hroom]
    exact and_and_and_comm

/-- The operands of each set operation are decoded in the same way. -/
theorem compose (tag : Tag) (op : SetOperation) {operands : List (Node Float)}
    (h : ∀ c ∈ operands, Faithful bound c.toJson node c (P c)) :
    Faithful (bound + 1) (Node.compose tag op operands).toJson (Node.outerDecoder node)
      (.compose tag op operands) (∀ c ∈ operands, P c) := by
  have hcase : (Node.cases node).lookup op.tagName
      = some (node.list.map fun operands tag => .compose tag op operands) := by cases op <;> rfl
  exact ofData hcase (fun _ _ heq => (Node.compose.inj heq).2.2) (nodes h)

theorem part (tag : Tag) {members : Part Float} (hfinish : members.finish = none)
    (h : ∀ s ∈ members.children ++ members.holes ++ members.miscellaneous,
      Faithful bound s.node.toJson node s.node (P s.node)) :
    Faithful (bound + 1) (Node.part tag members).toJson (Node.outerDecoder node)
      (.part tag members)
      (∀ s ∈ members.children ++ members.holes ++ members.miscellaneous, P s.node) := by
  have hcase : (Node.cases node).lookup "Part"
      = some ((Assembly.decoder node).map fun p tag => .part tag p) := rfl
  have hmembers := (assembly hfinish h).mono (Nat.le_add_right bound 1)
  exact ofData hcase (fun _ _ heq => (Node.part.inj heq).2) hmembers

/-- **A node stands for itself if its numbers are finite and the nodes right below stand for
themselves.** -/
theorem outer [LawfulJsonLibrary] {n : Node Float} (hfinish : n.HasNoFinish)
    (h : ∀ c ∈ n.subnodes, Faithful bound c.toJson node c (P c)) :
    Faithful (bound + 1) n.toJson (Node.outerDecoder node) n
      (n.HasFiniteScalars ∧ ∀ c ∈ n.subnodes, P c) := by
  cases n with
  | leaf tag shape => exact (leaf tag shape).congr (by simp [Node.subnodes, Node.HasFiniteScalars])
  | apply tag op children => exact apply tag op h
  | compose tag op operands =>
    exact (compose tag op h).congr (by simp [Node.subnodes, Node.HasFiniteScalars])
  | part tag members =>
    have hmembers := part tag hfinish fun s hs => h _ (List.mem_map_of_mem hs)
    refine hmembers.congr ?_
    rw [Node.subnodes, List.forall_mem_map, Node.HasFiniteScalars, true_and]

/-! ## §3. Trees. -/

/-- **A tree without finishes stands for itself if all of its numbers are finite.** -/
theorem tree [LawfulJsonLibrary] {n : Node Float}
    (h : n.Everywhere Node.subnodes Node.HasNoFinish) (levels : ℕ) :
    Faithful levels n.toJson (Node.decoderTo levels) n
      (n.Everywhere Node.subnodes Node.HasFiniteScalars) := by
  induction h generalizing levels with
  | @intro n here _ ih =>
    rw [Node.everywhere_iff]
    have houter (levels : ℕ) := outer here fun c hc => ih c hc levels
    cases levels with
    | zero =>
      -- Nothing is decoded if there is no room, with or without a level.
      refine ⟨(houter 0).printed, fun room hroom => ?_⟩
      obtain rfl := Nat.le_zero.mp hroom
      rw [← (houter 0).restores 0 (Nat.zero_le _)]
      rfl
    | succ levels => exact houter levels

end Faithful

/-! ## §4. Texts. -/

namespace Node

/-- Either text of a tree is read as its JSON value is decoded. -/
theorem read?_text [JsonLibrary] [LawfulJsonLibrary] {n : Node Float} (h : n.toJson.IsPrinted) :
    read? (JsonLibrary.compactText n.toJson) = decoder JsonLibrary.levels n.toJson ∧
      read? (JsonLibrary.prettyText n.toJson) = decoder JsonLibrary.levels n.toJson := by
  unfold read? Decoder.read?
  rw [LawfulJsonLibrary.compact_reads_back h, LawfulJsonLibrary.pretty_reads_back h]
  exact ⟨rfl, rfl⟩

/-- **A tree without finishes is read back from its text, compact or pretty, just if all of
its numbers are finite and the text is nested less than 128 deep.** The library is any lawful
one. -/
theorem read?_toJson [JsonLibrary] [LawfulJsonLibrary] {n : Node Float}
    (h : n.Everywhere subnodes HasNoFinish) :
    (read? (JsonLibrary.compactText n.toJson) = some n
      ↔ n.Everywhere subnodes HasFiniteScalars ∧ n.toJson.depth < 128) ∧
    (read? (JsonLibrary.prettyText n.toJson) = some n
      ↔ n.Everywhere subnodes HasFiniteScalars ∧ n.toJson.depth < 128) := by
  have htree := Faithful.tree h JsonLibrary.levels
  have hlevels : n.toJson.depth ≤ JsonLibrary.levels ↔ n.toJson.depth < 128 := by
    rw [LawfulJsonLibrary.deep_refused, Nat.lt_succ_iff]
  have hdecoder : decoder JsonLibrary.levels n.toJson = some n
      ↔ n.Everywhere subnodes HasFiniteScalars ∧ n.toJson.depth < 128 :=
    (htree.restores _ le_rfl).trans (and_congr_right' hlevels)
  obtain ⟨hcompact, hpretty⟩ := read?_text htree.printed
  rw [hcompact, hpretty]
  exact ⟨hdecoder, hdecoder⟩

/-! A plate with a hole in it. -/

/-- A commented part of a plate and a cylinder that is moved before it is cut out. -/
def plate (width : Float) : Node Float :=
  .part { comment := some "the \"base\"" }
    { name := "Plate"
      children := [⟨some "body", .leaf {} (.cube ⟨width, 2, 0.5⟩)⟩]
      holes := [⟨none,
        .apply { modifier := .debug } (.translate ⟨1, 0, 0⟩)
          [.leaf {} (.cylinder 10 0.25 none 60)]⟩] }

theorem hasNoFinish_plate (width : Float) :
    (plate width).Everywhere subnodes HasNoFinish := by
  repeat' first
    | exact trivial
    | exact rfl
    | exact List.forall_mem_nil _
    | refine .intro ?_ ?_
    | refine List.forall_mem_cons.mpr ⟨?_, ?_⟩

theorem hasFiniteScalars_plate : (plate 1).Everywhere subnodes HasFiniteScalars := by
  repeat' first
    | exact trivial
    | exact rfl
    | exact List.forall_mem_nil _
    | refine .intro ?_ ?_
    | refine List.forall_mem_cons.mpr ⟨?_, ?_⟩

theorem not_hasFiniteScalars_plate : ¬ (plate (1 / 0)).Everywhere subnodes HasFiniteScalars :=
  fun h => absurd ((h.there _ (.head _)).here _ (.head _)) (by decide)

attribute [local instance] JsonLibrary.nearest JsonLibrary.lawful_nearest

/-- A plate of finite width is read back, one of infinite width is not. -/
theorem read?_toJson_plate :
    (plate 1).Everywhere subnodes HasNoFinish ∧
      (plate (1 / 0)).Everywhere subnodes HasNoFinish ∧
      read? (JsonLibrary.compactText (plate 1).toJson) = some (plate 1) ∧
      read? (JsonLibrary.prettyText (plate 1).toJson) = some (plate 1) ∧
      read? (JsonLibrary.compactText (plate (1 / 0)).toJson) ≠ some (plate (1 / 0)) := by
  have hdepth : (plate 1).toJson.depth < 128 := by decide +kernel
  have hfinite := read?_toJson (hasNoFinish_plate 1)
  have hinfinite := read?_toJson (hasNoFinish_plate (1 / 0))
  refine ⟨hasNoFinish_plate 1, hasNoFinish_plate (1 / 0), ?_, ?_, ?_⟩
  · exact hfinite.1.mpr ⟨hasFiniteScalars_plate, hdepth⟩
  · exact hfinite.2.mpr ⟨hasFiniteScalars_plate, hdepth⟩
  · exact fun heq => not_hasFiniteScalars_plate (hinfinite.1.mp heq).1

end Node

end SolidTree
