import NoiseShader.Image.ColorMap
import NoiseShader.Image.Raster
import NoiseShader.Kernel.Basic

/-!
# Painting a kernel

A renderer evaluates a kernel at the centres of the pixels of an image, one row
after another from the top, and colours the values.  It keeps a buffer of
positions and one of values from row to row and from image to image.  The buffer
of positions is as long as the longest row that can be painted.  The buffer of
values is replaced by zeros when it is too short; a kernel sees what earlier rows
left in it and may leave it partly as it was.
-/

namespace NoiseShader

open Number (natText)

inductive PaintError where
  | smallBuffer
  | emptyImage
  | longRows (buffer width : Nat)
  | emptyDomain
  | noComponents
  | evaluation (cause : EvaluationError)
deriving DecidableEq, Repr

def PaintError.message : PaintError → String
  | .smallBuffer => "too small evaluation buffer size"
  | .emptyImage => "empty image"
  | .longRows buffer width =>
    "require evaluation buffer (" ++ natText buffer ++
      ") to be at least of length of image rows (" ++ natText width ++ ")"
  | .emptyDomain => "empty render domain"
  | .noComponents => "kernel returns no components"
  | .evaluation cause => cause.message

/-- A rectangle of the plane in which a kernel is evaluated. -/
structure Domain where
  low : Vec2 Float32
  high : Vec2 Float32

structure Renderer where
  colors : Option ColorMap
  positions : List Point
  values : List Float32

/-- What painting leaves behind. -/
structure Painting (ι σ : Type) where
  outcome : Except PaintError Unit
  image : ι
  renderer : Renderer
  state : σ

/-- The places of the pixels of an image in a domain. -/
structure Sampling where
  left : Float32
  top : Float32
  columnStep : Float32
  rowStep : Float32

namespace Sampling

def of (domain : Domain) (size : Vec2 Float32) (width height : Nat) : Sampling :=
  let columnStep := size.x / Float32.ofNat width
  let rowStep := size.y / Float32.ofNat height
  { left := domain.low.x + columnStep / 2
    top := domain.high.y - rowStep / 2
    columnStep := columnStep
    rowStep := rowStep }

/-- The centre of a pixel. -/
def centre (s : Sampling) (row column : Nat) : Vec2 Float32 :=
  ⟨s.left + Float32.ofNat column * s.columnStep, s.top - Float32.ofNat row * s.rowStep⟩

def row (s : Sampling) (width row : Nat) : List Point :=
  (List.range width).map fun column => Point.ofVec (s.centre row column)

end Sampling

namespace Renderer

def create (capacity : Int) (colors : Option ColorMap) : Except PaintError Renderer :=
  if capacity ≤ 64 then .error .smallBuffer
  else .ok ⟨colors, List.replicate capacity.toNat ⟨0, 0⟩, []⟩

/-- What is the same for all rows of an image. -/
structure Job (σ : Type) where
  kernel : Kernel σ
  colors : ColorMap
  sampling : Sampling
  bounds : Rectangle

/-- The state while rows are painted: the image, the two buffers and the kernel's
state. -/
structure Progress (ι σ : Type) where
  image : ι
  positions : List Point
  values : List Float32
  state : σ

variable {ι σ : Type} [Surface ι]

/-- The job of painting a kernel.  Without a choice of colours they follow from the
number of components. -/
def Job.of (colors : Option ColorMap) (kernel : Kernel σ) (domain : Domain) (bounds : Rectangle) :
    Job σ :=
  { kernel := kernel
    colors := colors.getD (ColorMap.default kernel.components)
    sampling := Sampling.of domain (Vec.sub domain.high domain.low) bounds.width bounds.height
    bounds := bounds }

def Job.components (job : Job σ) : Nat := job.kernel.components.toNat

/-- The number of values of a row. -/
def Job.rowLength (job : Job σ) : Nat := job.bounds.width * job.components

/-- A buffer with room for so many values. -/
def withRoom (length : Nat) (values : List Float32) : List Float32 :=
  if values.length < length then List.replicate length 0 else values

/-- Colours so many pixels of a row, from a column on, with blocks of values. -/
def colorRow (colors : ColorMap) (components : Nat) (bounds : Rectangle) (row : Nat) :
    (pixels : Nat) → (column : Nat) → List Float32 → ι → ι
  | 0, _, _, image => image
  | pixels + 1, column, values, image =>
    let colored :=
      match colors.color? (values.take components) with
      | some color => Surface.set image (bounds.left + column) (bounds.top + row) color
      | none => image
    colorRow colors components bounds row pixels (column + 1) (values.drop components) colored

/-- Paints a row, unless the kernel fails on it. -/
def paintRow (job : Job σ) (row : Nat) (progress : Progress ι σ) :
    Except EvaluationError Unit × Progress ι σ :=
  let width := job.bounds.width
  let positions := job.sampling.row width row ++ progress.positions.drop width
  let result := job.kernel.evaluate (positions.take width) (progress.values.take job.rowLength)
    progress.state
  let values := result.values ++ progress.values.drop job.rowLength
  match result.outcome with
  | .error e => (.error e, ⟨progress.image, positions, values, result.state⟩)
  | .ok () =>
    let image := colorRow job.colors job.components job.bounds row width 0 result.values
      progress.image
    (.ok (), ⟨image, positions, values, result.state⟩)

/-- Paints `remaining` rows from the row `next` on. -/
def paintRows (job : Job σ) :
    (remaining : Nat) → (next : Nat) → Progress ι σ → Except EvaluationError Unit × Progress ι σ
  | 0, _, progress => (.ok (), progress)
  | remaining + 1, next, progress =>
    match paintRow job next progress with
    | (.error e, after) => (.error e, after)
    | (.ok (), after) => paintRows job remaining (next + 1) after

/-- Paints a kernel on an image. -/
def paintOn (renderer : Renderer) (kernel : Kernel σ) (state : σ) (domain : Domain) (image : ι) :
    Painting ι σ :=
  let refuse (e : PaintError) : Painting ι σ := ⟨.error e, image, renderer, state⟩
  let bounds := Surface.bounds image
  let width := bounds.width
  let height := bounds.height
  let capacity := renderer.positions.length
  let size := Vec.sub domain.high domain.low
  if width = 0 ∨ height = 0 then refuse .emptyImage
  else if capacity < width then refuse (.longRows capacity width)
  else if ¬ (0 < size.x ∧ 0 < size.y) then refuse .emptyDomain
  else if kernel.components < 1 then refuse .noComponents
  else
    let job := Job.of renderer.colors kernel domain bounds
    let values := withRoom job.rowLength renderer.values
    let (outcome, progress) := paintRows job height 0 ⟨image, renderer.positions, values, state⟩
    { outcome := outcome.mapError .evaluation
      image := progress.image
      renderer := ⟨renderer.colors, progress.positions, progress.values⟩
      state := progress.state }

/-- Paints a kernel on a blank raster. -/
def paint (renderer : Renderer) (kernel : Kernel σ) (state : σ) (domain : Domain)
    (bounds : Rectangle) (format : PixelFormat) : Painting Raster σ :=
  renderer.paintOn kernel state domain (Raster.blank bounds format)

end Renderer

def Painting.raster {σ : Type} (painting : Painting Raster σ) : Raster := painting.image

end NoiseShader
