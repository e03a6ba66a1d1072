/-
  SolidTree.Geometry.Span
  ───────────────────────
  **SPANS FROM TWO OF THEIR QUANTITIES.**

  A span on an axis starts somewhere, has a center, ends somewhere and has a
  length; any two of the four give the other two.

      SpanSpec.solve?   — from the first pair that is given, nothing checked
      SpanSpec.resolve  — the same, and every given quantity has to agree

  A lone length is centered on zero.  A solved span ascends.  Quantities may
  be given in descending order: then the solved ends are compared with the
  given ones swapped.
-/
import SolidTree.Fault
import SolidTree.Number.Approximate

namespace SolidTree

/-- What is known of a span. A length is signed: it leads from one end to the other. -/
structure SpanSpec (α : Type) where
  start? : Option α := none
  center? : Option α := none
  finish? : Option α := none
  distance? : Option α := none
  deriving Repr, DecidableEq

/-- A solved span. -/
structure Span (α : Type) where
  start : α
  center : α
  finish : α
  distance : α
  deriving Repr, DecidableEq

/-- The ascending span between two ends. -/
def Span.between {α : Type} [Scalar α] (a b : α) : Span α :=
  let (low, high) := if a < b then (a, b) else (b, a)
  let distance := high - low
  ⟨low, low + distance / 2.0, high, distance⟩

namespace SpanSpec

variable {α : Type} [Scalar α]

/-! ## §1. Solving. -/

omit [Scalar α] in
/-- Number of quantities given. -/
def count (s : SpanSpec α) : Nat :=
  [s.start?, s.center?, s.finish?, s.distance?].countP Option.isSome

/-- The span of an end and a center: the other end lies as far on the other side. -/
def ofStartCenter (a c : α) : Span α :=
  let distance := Scalar.abs (c - a) * 2.0
  if a < c then ⟨a, c, a + distance, distance⟩ else ⟨a - distance, c, a, distance⟩

/-- The span of a center and an end. -/
def ofCenterFinish (c b : α) : Span α :=
  let distance := Scalar.abs (b - c) * 2.0
  if c < b then ⟨b - distance, c, b, distance⟩ else ⟨b, c, b + distance, distance⟩

/-- The span of a center and a length. -/
def ofCenterDistance (c d : α) : Span α :=
  let distance := Scalar.abs d
  ⟨c - distance / 2.0, c, c + distance / 2.0, distance⟩

/-- The span of the first pair that is given; further quantities are not looked at. -/
def solve? (s : SpanSpec α) : Option (Span α) :=
  match s.start?, s.center?, s.finish?, s.distance? with
  | some a, some c, _, _ => some (ofStartCenter a c)
  | some a, none, some b, _ => some (.between a b)
  | some a, none, none, some d => some (.between a (a + d))
  | none, some c, some b, _ => some (ofCenterFinish c b)
  | none, some c, none, some d => some (ofCenterDistance c d)
  | none, none, some b, some d => some (.between (b - d) b)
  | none, none, none, some d => some (ofCenterDistance 0 d)
  | _, _, _, _ => none

/-! ## §2. Checking. -/

/-- A given quantity has to be close to the solved one. -/
def check (quantity : Quantity) (given : Option α) (solved : α) : Except (Fault α) Unit :=
  match given with
  | none => .ok ()
  | some a =>
    if Scalar.close Scalar.coordinateTolerance a solved then .ok ()
    else .error (.inconsistentCoordinate quantity a solved)

/-- The first of two quantities is above the second; both have to be given. -/
def above (a b : Option α) : Bool :=
  match a, b with
  | some a, some b => b < a
  | _, _ => false

/-- Some of the quantities are given from the high end to the low one. -/
def isDescending (s : SpanSpec α) : Bool :=
  above s.start? s.finish? || above s.start? s.center? || above s.center? s.finish?
    || above (some 0) s.distance?

/-- Every given quantity agrees with the solved span. -/
def validate (s : SpanSpec α) (solved : Span α) : Except (Fault α) Unit := do
  check .center s.center? solved.center
  check .distance (s.distance?.map Scalar.abs) solved.distance
  let (low, high) := if s.isDescending then (s.finish?, s.start?) else (s.start?, s.finish?)
  check .start low solved.start
  check .finish high solved.finish

/-- The span that agrees with everything given. -/
def resolve (s : SpanSpec α) : Except (Fault α) (Span α) :=
  match s.solve? with
  | none => .error .insufficientParameters
  | some solved => do
    s.validate solved
    return solved

end SpanSpec

end SolidTree
