/-
  SolidTree.Proofs.Meaning.Vocabulary
  ───────────────────────────────────
  **CALLS TELL OPERATORS AND LEAVES APART.**

  A vocabulary reads calls by their names and arguments.  No two operators
  are written as the same call, and no two leaves, so nothing is lost by
  that: every field is the argument under its key.

  Main results:
    * `Operator.call_injective`, `Primitive.call_injective`
    * `exists_vocabulary` — any meaning of operators and leaves is that of a
      vocabulary
-/
import Mathlib.Data.List.Basic
import SolidTree.Proofs.Meaning.Calls
import SolidTree.Proofs.Tree.Kinds

namespace SolidTree

variable {α : Type}

/-! ## §1. Values. -/

namespace Value

theorem count_injective : Function.Injective (count : UInt32 → Value α) := by
  intro m n h
  have hword : m.toUInt64.toInt64 = n.toUInt64.toInt64 := Value.integer.inj h
  have hwide : m.toUInt64 = n.toUInt64 := by simpa using congrArg Int64.toUInt64 hword
  exact UInt32.toUInt64_inj.mp hwide

theorem position_injective : Function.Injective (position : UInt64 → Value α) := by
  intro m n h
  have hword : m.toInt64 = n.toInt64 := Value.integer.inj h
  simpa using congrArg Int64.toUInt64 hword

theorem positions_injective :
    Function.Injective (positions : List (List UInt64) → Value α) := by
  intro paths paths' h
  refine List.map_injective_iff.mpr ?_ (Value.list.inj h)
  intro path path' h
  exact List.map_injective_iff.mpr position_injective (Value.list.inj h)

@[simp] theorem count_inj {m n : UInt32} : (count m : Value α) = count n ↔ m = n :=
  count_injective.eq_iff

@[simp] theorem positions_inj {paths paths' : List (List UInt64)} :
    (positions paths : Value α) = positions paths' ↔ paths = paths' :=
  positions_injective.eq_iff

@[simp] theorem vector_inj {v w : Vec3 α} : vector v = vector w ↔ v = w := by
  obtain ⟨x, y, z⟩ := v
  obtain ⟨x', y', z'⟩ := w
  simp [vector, numbers, Vec3.toList]

@[simp] theorem map_count_inj {m n : Option UInt32} :
    m.map (count : UInt32 → Value α) = n.map count ↔ m = n :=
  (Option.map_injective count_injective).eq_iff

@[simp] theorem map_number_inj {x y : Option α} :
    x.map number = y.map number ↔ x = y :=
  (Option.map_injective fun _ _ => number.inj).eq_iff

@[simp] theorem map_text_inj {s t : Option String} :
    s.map (text : String → Value α) = t.map text ↔ s = t :=
  (Option.map_injective fun _ _ => text.inj).eq_iff

@[simp] theorem map_positions_inj {paths paths' : Option (List (List UInt64))} :
    paths.map (positions : _ → Value α) = paths'.map positions ↔ paths = paths' :=
  (Option.map_injective positions_injective).eq_iff

@[simp] theorem map_vector_inj {points points' : List (Vec3 α)} :
    points.map vector = points'.map vector ↔ points = points' :=
  (List.map_injective_iff.mpr fun _ _ => vector_inj.mp).eq_iff

@[simp] theorem map_corner_inj {points points' : List (Vec2 α)} :
    (points.map fun p => numbers [p.x, p.y]) = points'.map (fun p => numbers [p.x, p.y]) ↔
      points = points' := by
  refine Function.Injective.eq_iff (List.map_injective_iff.mpr ?_)
  rintro ⟨x, y⟩ ⟨x', y'⟩ h
  simpa [numbers] using h

@[simp] theorem map_halign_inj {h h' : Option HAlign} :
    h.map ((text : String → Value α) ∘ HAlign.name) = h'.map (text ∘ HAlign.name) ↔ h = h' := by
  refine (Option.map_injective ?_).eq_iff
  intro a b h
  cases a <;> cases b <;> first | rfl | exact absurd (text.inj h) (by decide)

@[simp] theorem map_valign_inj {v v' : Option VAlign} :
    v.map ((text : String → Value α) ∘ VAlign.name) = v'.map (text ∘ VAlign.name) ↔ v = v' := by
  refine (Option.map_injective ?_).eq_iff
  intro a b h
  cases a <;> cases b <;> first | rfl | exact absurd (text.inj h) (by decide)

end Value

/-! ## §2. Arguments. -/

namespace Arguments

@[simp] theorem get?_empty (k : String) : ({} : Arguments α).get? k = none := rfl

/-- A look-up finds what was there before, and else the new argument. -/
@[simp] theorem get?_add (a : Arguments α) (key k : String) (value : Value α) :
    (a.add key value).get? k = (a.get? k).or (if key = k then some value else none) := by
  unfold add get?
  rw [List.find?_append]
  cases a.entries.find? fun entry => entry.1 == some k with
  | some entry => rfl
  | none => by_cases h : key = k <;> simp [h]

@[simp] theorem get?_addSome (a : Arguments α) (key k : String) (value : Option (Value α)) :
    (a.addSome key value).get? k = (a.get? k).or (if key = k then value else none) := by
  cases value with
  | none => simp [addSome]
  | some value => exact get?_add a key k value

@[simp] theorem get?_addPositional (a : Arguments α) (k : String) (value : Value α) :
    (a.addPositional value).get? k = a.get? k := by
  unfold addPositional get?
  rw [List.find?_append]
  simp

end Arguments

/-! ## §3. Operators. -/

/-- **Operators are told apart by their calls.** -/
theorem Operator.call_injective {op other : Operator α} (hname : op.name = other.name)
    (harguments : op.arguments = other.arguments) : op = other := by
  have hget : ∀ k, op.arguments.get? k = other.arguments.get? k := by
    intro k
    rw [harguments]
  have hidx := name_eq_iff.mp hname
  -- The kinds are the same, and each field is read under its key.
  cases op <;> cases other <;> cases hidx
  case translate v w => simpa [arguments] using hget "v"
  case rotate a b => simpa [arguments] using hget "a"
  case scale v w => simpa [arguments] using hget "v"
  case mirror v w => simpa [arguments] using hget "v"
  case slide v w => simpa [arguments] using hget "v"
  case linearExtrude height options height' options' =>
    obtain ⟨center, convexity, twist, slices, scale⟩ := options
    obtain ⟨center', convexity', twist', slices', scale'⟩ := options'
    simpa [arguments] using And.intro (hget "height") (And.intro (hget "center")
      (And.intro (hget "convexity") (And.intro (hget "twist")
        (And.intro (hget "slices") (hget "scale")))))
  case rotateExtrude angle convexity segments angle' convexity' segments' =>
    simpa [arguments] using And.intro (hget "angle")
      (And.intro (hget "convexity") (hget "$fn"))
  case offset r delta chamfer r' delta' chamfer' =>
    simpa [arguments] using And.intro (hget "r") (And.intro (hget "delta") (hget "chamfer"))
  case projection cut cut' => simpa [arguments] using hget "cut"
  case color name alpha name' alpha' =>
    have hfirst := congrArg (·.entries.head?) harguments
    have halpha := hget "alpha"
    cases alpha <;> cases alpha' <;>
      simp_all [arguments, Arguments.addPositional, Arguments.addSome, Arguments.add]
  case render convexity convexity' => simpa [arguments] using hget "convexity"
  case hull => rfl
  case minkowski => rfl

/-! ## §4. Leaves. -/

/-- **Leaves are told apart by their calls.** -/
theorem Primitive.call_injective {s other : Primitive α} (hname : s.name = other.name)
    (harguments : s.arguments = other.arguments) : s = other := by
  have hget : ∀ k, s.arguments.get? k = other.arguments.get? k := by
    intro k
    rw [harguments]
  have hidx := ctorIdx_eq_of_name hname
  cases s <;> cases other <;> cases hidx
  case cube size size' => simpa [arguments] using hget "size"
  case cylinder height d top n height' d' top' n' =>
    -- The diameter is under another key if there is one at the top.
    have hheight := hget "h"
    have hn := hget "$fn"
    cases top with
    | none =>
      cases top' with
      | none => simpa [arguments] using And.intro hheight (And.intro (hget "d") hn)
      | some top' => simpa [arguments] using hget "d"
    | some top =>
      cases top' with
      | none => simpa [arguments] using hget "d"
      | some top' =>
        simpa [arguments] using
          And.intro hheight (And.intro (hget "d1") (And.intro (hget "d2") hn))
  case sphere d n d' n' => simpa [arguments] using And.intro (hget "d") (hget "$fn")
  case circle d n d' n' => simpa [arguments] using And.intro (hget "d") (hget "$fn")
  case square width depth width' depth' => simpa [arguments, Value.numbers] using hget "size"
  case text t t' =>
    obtain ⟨_, _, _, _, _, _, _, _, _, _⟩ := t
    obtain ⟨_, _, _, _, _, _, _, _, _, _⟩ := t'
    simpa [arguments, TextShape.arguments] using And.intro (hget "text")
      (And.intro (hget "size") (And.intro (hget "font") (And.intro (hget "halign")
        (And.intro (hget "valign") (And.intro (hget "spacing") (And.intro (hget "direction")
          (And.intro (hget "language") (And.intro (hget "script") (hget "$fn")))))))))
  case polygon points paths convexity points' paths' convexity' =>
    simpa [arguments] using And.intro (hget "points")
      (And.intro (hget "paths") (hget "convexity"))
  case polyhedron points faces convexity points' faces' convexity' =>
    simpa [arguments] using And.intro (hget "points")
      (And.intro (hget "faces") (hget "convexity"))
  case imported file convexity layer file' convexity' layer' =>
    simpa [arguments] using And.intro (hget "file") (And.intro (hget "convexity") (hget "layer"))

/-! ## §5. Vocabularies. -/

/-- **Nothing is lost by reading calls.** Whatever leaves and operators mean, there is a
vocabulary in which their calls mean just that. -/
theorem exists_vocabulary {Place : Type*} (shape : Primitive α → Set Place)
    (operator : Operator α → Set Place → Set Place)
    (minkowski : List (Set Place) → Set Place) :
    ∃ V : Vocabulary α Place, V.minkowski = minkowski ∧
      (∀ s : Primitive α, V.shape s.name s.arguments = shape s) ∧
      ∀ op : Operator α, V.operator op.name op.arguments = operator op := by
  refine ⟨⟨fun name arguments => {p | ∃ s : Primitive α, s.name = name ∧
      s.arguments = arguments ∧ p ∈ shape s}, fun name arguments S => {p | ∃ op : Operator α,
      op.name = name ∧ op.arguments = arguments ∧ p ∈ operator op S}, minkowski⟩, rfl, ?_, ?_⟩
  · intro s
    ext p
    constructor
    · rintro ⟨other, hname, harguments, hp⟩
      rwa [Primitive.call_injective hname harguments] at hp
    · exact fun hp => ⟨s, rfl, rfl, hp⟩
  · intro op
    funext S
    ext p
    constructor
    · rintro ⟨other, hname, harguments, hp⟩
      rwa [Operator.call_injective hname harguments] at hp
    · exact fun hp => ⟨op, rfl, rfl, hp⟩

end SolidTree
