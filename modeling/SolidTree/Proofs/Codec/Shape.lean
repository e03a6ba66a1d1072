/-
  SolidTree.Proofs.Codec.Shape
  ────────────────────────────
  **SHAPES AND OPERATORS READ BACK.**

  Each shape and each operator stands faithfully for itself if all of its
  numbers are finite:

      Primitive.scalars, Operator.scalars  — the numbers
      Faithful.primitive                   — one case for each shape
      Faithful.operator                    — one case for each operator
-/
import SolidTree.Proofs.Codec.Faithful

namespace SolidTree

/-! ## §1. Numbers. -/

section

variable {α : Type}

/-- The coordinates of a pair. -/
def Vec2.scalars (v : Vec2 α) : List α := [v.x, v.y]

/-- The numbers of a text. -/
def TextShape.scalars (t : TextShape α) : List α := t.size :: t.spacing.toList

/-- The numbers of a shape. -/
def Primitive.scalars : Primitive α → List α
  | .cube size => size.toList
  | .cylinder height diameter topDiameter _ => height :: diameter :: topDiameter.toList
  | .sphere diameter _ | .circle diameter _ => [diameter]
  | .square width depth => [width, depth]
  | .text shape => shape.scalars
  | .polygon points _ _ => points.flatMap Vec2.scalars
  | .polyhedron points _ _ => points.flatMap Vec3.toList
  | .imported .. => []

/-- The numbers of an operator. -/
def Operator.scalars : Operator α → List α
  | .translate v | .rotate v | .scale v | .mirror v | .slide v => v.toList
  | .linearExtrude height options => [height, options.twist, options.scale]
  | .rotateExtrude angle _ _ => [angle]
  | .offset r delta _ => r.toList ++ delta.toList
  | .color _ alpha => alpha.toList
  | .projection _ | .hull | .minkowski | .render _ => []

end

/-- All of these doubles are finite. -/
def AllFinite (xs : List Float) : Prop := ∀ x ∈ xs, Binary64.isFinite x = true

@[simp] theorem allFinite_nil : AllFinite [] := List.forall_mem_nil _

@[simp] theorem allFinite_cons {x : Float} {xs : List Float} :
    AllFinite (x :: xs) ↔ Binary64.isFinite x = true ∧ AllFinite xs := List.forall_mem_cons

@[simp] theorem allFinite_append {xs ys : List Float} :
    AllFinite (xs ++ ys) ↔ AllFinite xs ∧ AllFinite ys := List.forall_mem_append

@[simp] theorem allFinite_toList {o : Option Float} :
    AllFinite o.toList ↔ ∀ x ∈ o, Binary64.isFinite x = true := by
  simp [AllFinite]

namespace Decoder

variable {room : ℕ}

@[simp] theorem option_hAlign (a : Option HAlign) :
    (named HAlign.all HAlign.name).option room (.ofOption (fun a => .ofString (HAlign.name a)) a)
      = some a := by
  rw [option_ofOption fun _ => rfl]
  exact fun a _ => named_ofString (by cases a <;> rfl)

@[simp] theorem option_vAlign (a : Option VAlign) :
    (named VAlign.all VAlign.name).option room (.ofOption (fun a => .ofString (VAlign.name a)) a)
      = some a := by
  rw [option_ofOption fun _ => rfl]
  exact fun a _ => named_ofString (by cases a <;> rfl)

end Decoder

namespace Faithful

open Decoder

-- A field of a record that is written out is looked up by its name.
attribute [local simp] Fields.required Fields.optional Fields.defaulted Fields.get? List.lookup_cons
  Option.bind_eq_some_iff

variable [JsonLibrary] {bound : ℕ}

/-! ## §2. Vectors and lists of them. -/

/-- The points of a shape stand for themselves if all their coordinates are finite. -/
theorem points {β : Type} {encode : β → Json} {d : Decoder β} {scalars : β → List Float}
    (h : ∀ b, Faithful bound (encode b) d b (AllFinite (scalars b))) (bs : List β) :
    Faithful bound (.ofList encode bs) d.list bs (AllFinite (bs.flatMap scalars)) :=
  (list fun b _ => h b).congr List.forall_mem_flatMap.symm

variable [LawfulJsonLibrary]

theorem vec3 (v : Vec3 Float) : Faithful bound v.toJson Vec3.decoder v (AllFinite v.toList) := by
  have hlist : Faithful bound (.ofList JsonLibrary.ofFloat v.toList) Decoder.float.list v.toList _ :=
    list fun x _ => float x
  refine ⟨hlist.printed, fun room hroom => ?_⟩
  rw [AllFinite, Vec3.toJson, ← hlist.restores room hroom, Vec3.decoder]
  split
  next heq =>
    rw [heq]
    cases v
    simp [Vec3.toList]
  next hne => exact iff_of_false nofun fun heq => hne _ _ _ heq

theorem vec2 (v : Vec2 Float) : Faithful bound v.toJson Vec2.decoder v (AllFinite v.scalars) := by
  have hlist : Faithful bound (.ofList JsonLibrary.ofFloat v.scalars) Decoder.float.list v.scalars _ :=
    list fun x _ => float x
  refine ⟨hlist.printed, fun room hroom => ?_⟩
  have hjson : v.toJson = .ofList JsonLibrary.ofFloat v.scalars := rfl
  rw [AllFinite, hjson, ← hlist.restores room hroom, Vec2.decoder]
  split
  next heq =>
    rw [heq]
    cases v
    simp [Vec2.scalars]
  next hne => exact iff_of_false nofun fun heq => hne _ _ heq

theorem paths (ps : List (List UInt64)) : Faithful bound (.ofPaths ps) Decoder.paths ps True :=
  (list fun p _ => list fun n _ => longWord n).congr (by simp)

theorem optionalPaths (ps : Option (List (List UInt64))) :
    Faithful bound (.ofOption .ofPaths ps) Decoder.paths.option ps True := by
  have hpaths : ∀ p, Faithful bound (.ofPaths p) Decoder.paths p True := paths
  refine ⟨Json.isPrinted_ofOption fun p _ => (hpaths p).printed, fun room hroom => ?_⟩
  rw [option_ofOption (fun room => by cases room <;> rfl), Json.depth_ofOption_le, true_and]
  exact forall₂_congr fun p _ => by rw [(hpaths p).restores room hroom, true_and]

/-! ## §3. Shapes. -/

theorem textShape (t : TextShape Float) :
    Faithful (bound + 1) t.toJson TextShape.decoder t (AllFinite t.scalars) := by
  refine record (.refl _) (by decide) (by simp) fun room _ => ?_
  obtain ⟨s, size, font, halign, valign, spacing, direction, language, script, segments⟩ := t
  simp [TextShape.scalars]

/-- **A shape stands for itself if its numbers are finite.** -/
theorem primitive (s : Primitive Float) :
    Faithful (bound + 2) s.toJson Primitive.decoder s (AllFinite s.scalars) := by
  cases s with
  | cube size =>
    have hsize : Faithful bound size.toJson Vec3.decoder size _ := vec3 size
    refine tagged rfl rfl (record (.refl _) (by decide) ?_ fun room hroom => ?_)
    · simp [hsize.printed]
    · simp [hsize.restores room hroom, Primitive.scalars]
  | cylinder height diameter topDiameter segments =>
    refine tagged rfl rfl (record (.refl _) (by decide) (by simp) fun room _ => ?_)
    simp [Primitive.scalars]
  | sphere diameter segments =>
    refine tagged rfl rfl (record (.refl _) (by decide) (by simp) fun room _ => ?_)
    simp [Primitive.scalars]
  | circle diameter segments =>
    refine tagged rfl rfl (record (.refl _) (by decide) (by simp) fun room _ => ?_)
    simp [Primitive.scalars]
  | square width depth =>
    refine tagged rfl rfl (record (.refl _) (by decide) (by simp) fun room _ => ?_)
    simp [Primitive.scalars]
  | text shape =>
    refine tagged rfl rfl ((textShape shape).map ?_)
    exact fun _ _ => Primitive.text.inj
  | polygon ps paths convexity =>
    have hpoints : Faithful bound (.ofList Vec2.toJson ps) Vec2.decoder.list ps _ :=
      points vec2 ps
    have hpaths : Faithful bound (.ofOption .ofPaths paths) Decoder.paths.option paths _ :=
      optionalPaths paths
    refine tagged rfl rfl (record (.refl _) (by decide) ?_ fun room hroom => ?_)
    · simp [hpoints.printed, hpaths.printed]
    · simp [hpoints.restores room hroom, hpaths.restores room hroom, Primitive.scalars,
        and_assoc]
  | polyhedron ps faces convexity =>
    have hpoints : Faithful bound (.ofList Vec3.toJson ps) Vec3.decoder.list ps _ :=
      points vec3 ps
    have hfaces : Faithful bound (.ofPaths faces) Decoder.paths faces _ := paths faces
    refine tagged rfl rfl (record (.refl _) (by decide) ?_ fun room hroom => ?_)
    · simp [hpoints.printed, hfaces.printed]
    · simp [hpoints.restores room hroom, hfaces.restores room hroom, Primitive.scalars,
        and_assoc]
  | imported file convexity layer =>
    refine tagged rfl rfl (record (.refl _) (by decide) (by simp) fun room _ => ?_)
    simp [Primitive.scalars]

/-! ## §4. Operators. -/

theorem extrudeOptions (o : ExtrudeOptions Float) :
    Faithful (bound + 1) o.toJson ExtrudeOptions.decoder o (AllFinite [o.twist, o.scale]) := by
  refine record (.refl _) (by decide) (by simp) fun room _ => ?_
  obtain ⟨center, convexity, twist, slices, scale⟩ := o
  simp

/-- **An operator stands for itself if its numbers are finite.** -/
theorem operator (op : Operator Float) :
    Faithful (bound + 3) op.toJson Operator.decoder op (AllFinite op.scalars) := by
  cases op with
  | translate v => exact tagged rfl rfl ((vec3 v).map fun _ _ => Operator.translate.inj)
  | rotate v => exact tagged rfl rfl ((vec3 v).map fun _ _ => Operator.rotate.inj)
  | scale v => exact tagged rfl rfl ((vec3 v).map fun _ _ => Operator.scale.inj)
  | mirror v => exact tagged rfl rfl ((vec3 v).map fun _ _ => Operator.mirror.inj)
  | slide v => exact tagged rfl rfl ((vec3 v).map fun _ _ => Operator.slide.inj)
  | linearExtrude height options =>
    have hoptions : Faithful (bound + 1) options.toJson ExtrudeOptions.decoder options _ :=
      extrudeOptions options
    refine tagged rfl rfl (record (.refl _) (by decide) ?_ fun room hroom => ?_)
    · simp [hoptions.printed]
    · simp [hoptions.restores room hroom, Operator.scalars, and_assoc]
  | rotateExtrude angle convexity segments =>
    refine tagged rfl rfl (record (.refl _) (by decide) (by simp) fun room _ => ?_)
    simp [Operator.scalars]
  | offset r delta chamfer =>
    refine tagged rfl rfl (record (.refl _) (by decide) (by simp) fun room _ => ?_)
    simp [Operator.scalars]
  | projection cut =>
    refine tagged rfl rfl (record (.refl _) (by decide) (by simp) fun room _ => ?_)
    simp [Operator.scalars]
  | color name alpha =>
    refine tagged rfl rfl (record (.refl _) (by decide) (by simp) fun room _ => ?_)
    simp [Operator.scalars]
  | hull => exact (bare rfl).congr (by simp [Operator.scalars])
  | minkowski => exact (bare rfl).congr (by simp [Operator.scalars])
  | render convexity =>
    refine tagged rfl rfl (record (.refl _) (by decide) (by simp) fun room _ => ?_)
    simp [Operator.scalars]

end Faithful

end SolidTree
