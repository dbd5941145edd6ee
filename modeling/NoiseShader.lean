import NoiseShader.Command.Elapsed
import NoiseShader.Command.Numeral
import NoiseShader.Command.Options
import NoiseShader.Command.Run
import NoiseShader.Command.Session
import NoiseShader.Image.Caption
import NoiseShader.Image.Color
import NoiseShader.Image.ColorMap
import NoiseShader.Image.Font
import NoiseShader.Image.Picture
import NoiseShader.Image.Png
import NoiseShader.Image.Preview
import NoiseShader.Image.Raster
import NoiseShader.Image.Renderer
import NoiseShader.Kernel.Basic
import NoiseShader.Kernel.Cached
import NoiseShader.Kernel.Grid
import NoiseShader.Kernel.Pointwise
import NoiseShader.Kernel.Registry
import NoiseShader.Library.Catalog
import NoiseShader.Library.Kernels
import NoiseShader.Library.Shared
import NoiseShader.Main
import NoiseShader.Noise.Cellular
import NoiseShader.Noise.Gradient
import NoiseShader.Noise.Hash
import NoiseShader.Noise.Perlin
import NoiseShader.Noise.Simplex
import NoiseShader.Number.Binary32
import NoiseShader.Number.Decimal
import NoiseShader.Number.Format
import NoiseShader.Program.Basic
import NoiseShader.Program.Fingerprint
import NoiseShader.Program.Global
import NoiseShader.Program.Merge
import NoiseShader.Program.Reachable
import NoiseShader.Program.Stage
import NoiseShader.Program.Validate
import NoiseShader.Program.Words
import NoiseShader.Proofs.Command.Outcome
import NoiseShader.Proofs.Command.Scale
import NoiseShader.Proofs.Image.Painting
import NoiseShader.Proofs.Image.Shading
import NoiseShader.Proofs.Kernel.Accounting
import NoiseShader.Proofs.Kernel.Cache
import NoiseShader.Proofs.Kernel.Coverage
import NoiseShader.Proofs.Library.Contents
import NoiseShader.Proofs.Library.Selection
import NoiseShader.Proofs.Meaning.Agreement
import NoiseShader.Proofs.Meaning.Evaluation
import NoiseShader.Proofs.Meaning.Kernels
import NoiseShader.Proofs.Noise.Seamless
import NoiseShader.Proofs.Noise.Selection
import NoiseShader.Proofs.Number.Arithmetic
import NoiseShader.Proofs.Number.Extremum
import NoiseShader.Proofs.Number.Fewest
import NoiseShader.Proofs.Number.Literal
import NoiseShader.Proofs.Number.Narrowing
import NoiseShader.Proofs.Number.Nearest
import NoiseShader.Proofs.Number.Order
import NoiseShader.Proofs.Number.Reading
import NoiseShader.Proofs.Number.Rounding
import NoiseShader.Proofs.Number.Shortest
import NoiseShader.Proofs.Number.Unpacked
import NoiseShader.Proofs.Number.Values
import NoiseShader.Proofs.Number.Word
import NoiseShader.Proofs.Program.Checking
import NoiseShader.Proofs.Program.Closure
import NoiseShader.Proofs.Program.Collision
import NoiseShader.Proofs.Program.Creation
import NoiseShader.Proofs.Program.Emission
import NoiseShader.Proofs.Program.Flattening
import NoiseShader.Proofs.Program.Hygiene
import NoiseShader.Proofs.Program.Inclusion
import NoiseShader.Proofs.Program.Merging
import NoiseShader.Proofs.Program.Naming
import NoiseShader.Proofs.Program.Pruning
import NoiseShader.Proofs.Program.Renaming
import NoiseShader.Proofs.Program.Revision
import NoiseShader.Proofs.Program.Separation
import NoiseShader.Proofs.Program.Splicing
import NoiseShader.Proofs.Program.Traversal
import NoiseShader.Proofs.Program.Undefined
import NoiseShader.Proofs.Program.WellFormed
import NoiseShader.Proofs.Syntax.Construction
import NoiseShader.Proofs.Syntax.Containment
import NoiseShader.Proofs.Syntax.Grammar
import NoiseShader.Proofs.Syntax.Pieces
import NoiseShader.Proofs.Syntax.Printing
import NoiseShader.Proofs.Syntax.Regrouping
import NoiseShader.Proofs.Syntax.RoundTrip
import NoiseShader.Proofs.Syntax.Signs
import NoiseShader.Proofs.Syntax.Splicing
import NoiseShader.Proofs.Syntax.Token
import NoiseShader.Proofs.Vector.Broadcast
import NoiseShader.Proofs.Vector.Components
import NoiseShader.Proofs.Vector.Composition
import NoiseShader.Proofs.Vector.Pattern
import NoiseShader.Syntax.Build
import NoiseShader.Syntax.Node
import NoiseShader.Syntax.Render
import NoiseShader.Text.Basic
import NoiseShader.Text.Printable
import NoiseShader.Text.Quoted
import NoiseShader.Vector.Basic
import NoiseShader.Vector.Swizzle
