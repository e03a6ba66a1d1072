/-
  SolidTree.Tree.Catalog
  ──────────────────────
  **SOME PART TYPES.**

  Mounts, standoffs, washers, pulleys, racks and labels, and pairs of pins.
  Each shows one way to define a type: shared members, members that depend
  on the size, members that are declared twice, a finish.
-/
import SolidTree.Tree.PartType

namespace SolidTree.Catalog

variable {α : Type} [Scalar α]

private def block (w d h : α) : Node α := Node.cube ⟨w, d, h⟩

private def pin (height diameter : α) : Node α := .leaf {} (.ofCylinder height diameter)

private def ball (diameter : α) : Node α := .leaf {} (.ofSphere diameter)

private def plate (width depth : α) : Node α := .leaf {} (.square width depth)

private def toBottom (n : Node α) (z : α) : Except (Fault α) (Node α) :=
  n.align (Alignment.free.edge .bottom z)

/-- A plate with a bore, and a label beside it. -/
def motorMount : PartType α where
  name := "MotorMount"
  layout := Layout.child {} "plate" (block 40.0 40.0 4.0) |>.misc "label" (block 60.0 1.0 1.0)
  init size p := .ok (p.set "bore" ⟨.hole, pin 10.0 size⟩)

/-- A hollow pin that stands on the ground. -/
def standoff : PartType α where
  name := "Standoff"
  layout := Layout.misc {} "marker" (ball 1.0)
  init size p := do
    let body ← toBottom (pin size 6.0) 0
    let bore ← toBottom (pin (size + 2.0) 3.0) (-1.0)
    return (p.set "body" ⟨.child, body⟩).set "bore" ⟨.hole, bore⟩

/-- A ring with a groove, drawn by turning its section. -/
def washer : PartType α where
  name := "Washer"
  layout :=
    Layout.child {} "ring" ((plate 2.0 1.0).translateOn .x 4.0)
      |>.hole "relief" ((plate 0.5 0.5).translateOn .x 3.25)
  finish := .revolve (some 64)

/-- A section that is masked and turned. -/
def pulley : PartType α where
  name := "Pulley"
  init size p := (p.set "section" ⟨.child, plate size 6.0⟩).revolved

/-- A rack whose frame is declared again and again. -/
def rack : PartType α where
  name := "HTTPServerRack4U"
  layout :=
    Layout.child {} "frame" (block 1.0 1.0 1.0)
      |>.misc "door" (ball 3.0)
      |>.hole "frame" (block 2.0 2.0 2.0)
      |>.child "frame" ((block 8.0 8.0 8.0).withComment "kept")
  init size p :=
    .ok (if 0 < size then p.set "frame" ⟨.hole, block size size size⟩ else p)

/-- A raised text put to the left of the origin. Its right edge is not known, so there
is no such part. -/
def label : PartType α where
  name := "Label"
  init size p := do
    let text : Node α := .leaf {} (.text { text := "label", size := size })
    let raised ← (text.linearExtrude 1.0 .straight).align (Alignment.free.edge .right 0)
    return p.set "text" ⟨.child, raised⟩

/-- Two pins, drawn as their hull. -/
def pair : PartType α where
  name := "Pair"
  layout := Layout.child {} "first" (pin 2.0 2.0)
  init size p := .ok (p.add ⟨.child, (pin 2.0 2.0).translateOn .x size⟩)
  finish := .hullPair

/-- All types. -/
def all : List (PartType α) := [motorMount, standoff, washer, pulley, rack, label, pair]

/-- The type of a name. -/
def find? (name : String) : Option (PartType α) := all.find? fun t => t.name == name

end SolidTree.Catalog
