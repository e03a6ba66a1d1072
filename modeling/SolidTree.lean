import SolidTree.Main
import SolidTree.Storage.Directory
import SolidTree.Proofs.Sweep.Sector
import SolidTree.Tree.Catalog
import SolidTree.Number.Rational
import SolidTree.Proofs.Codec.Tree
import SolidTree.Proofs.Drawing.Failure
import SolidTree.Proofs.Drawing.Reading
import SolidTree.Proofs.Meaning.Drawing
import SolidTree.Proofs.Meaning.Vocabulary
import SolidTree.Proofs.Rotation.Merging
import SolidTree.Proofs.Space.Boxes
import SolidTree.Proofs.Tree.Folding
import SolidTree.Proofs.Upright.Trees
import SolidTree.Proofs.Drawing.Rendering
import SolidTree.Proofs.Span.Contradictions
import SolidTree.Proofs.Part.Fields
import SolidTree.Proofs.Tree.Moved
import SolidTree.Proofs.Placement.Revolution
import SolidTree.Proofs.Leaves.Origins
import SolidTree.Proofs.Leaves.Extents
import SolidTree.Number.Extended
import SolidTree.Proofs.Box.Growing
import SolidTree.Proofs.Codec.Decoded
import SolidTree.Proofs.Codec.Normal
import SolidTree.Proofs.Rotation.Boxes
import SolidTree.Proofs.Sweep.Tapered
import SolidTree.Proofs.Composition.Splicing
import SolidTree.Proofs.Part.Declarations
import SolidTree.Proofs.Part.Geometry
import SolidTree.Proofs.Placement.Reflection
import SolidTree.Proofs.Tree.Axes
import SolidTree.Proofs.Placement.Division
import SolidTree.Proofs.Part.Mask
import SolidTree.Proofs.Box.Lattice
import SolidTree.Proofs.Double.Places
import SolidTree.Proofs.Storage.Saving
import SolidTree.Proofs.Drawing.Arguments
import SolidTree.Proofs.Text.Separators
import SolidTree.Proofs.Placement.Cuboids
import SolidTree.Proofs.Drawing.Frames
import SolidTree.Proofs.Drawing.Layout
import SolidTree.Proofs.Rotation.Tolerated
import SolidTree.Proofs.Json.Scaling
