import NoiseShader.Image.Color

/-!
# Rasters

A raster covers a rectangle of integer coordinates with pixels, kept as rows from
the top.  The bytes of a new raster are counted in a machine word of 64 bits with a
sign, and there is a longest buffer that can be asked for.  Below it, memory is not
taken to run out.
-/

namespace NoiseShader

structure Rectangle where
  left : Int
  top : Int
  right : Int
  bottom : Int
  left_le : left ≤ right
  top_le : top ≤ bottom
deriving DecidableEq, Repr

namespace Rectangle

/-- The rectangle between two opposite corners. -/
def ofCorners (x0 y0 x1 y1 : Int) : Rectangle where
  left := min x0 x1
  top := min y0 y1
  right := max x0 x1
  bottom := max y0 y1
  left_le := by omega
  top_le := by omega

def width (r : Rectangle) : Nat := (r.right - r.left).toNat

def height (r : Rectangle) : Nat := (r.bottom - r.top).toNat

theorem cast_width (r : Rectangle) : (r.width : Int) = r.right - r.left :=
  Int.toNat_of_nonneg (Int.sub_nonneg_of_le r.left_le)

theorem cast_height (r : Rectangle) : (r.height : Int) = r.bottom - r.top :=
  Int.toNat_of_nonneg (Int.sub_nonneg_of_le r.top_le)

def contains (r : Rectangle) (x y : Int) : Bool :=
  decide (r.left ≤ x) && decide (x < r.right) && decide (r.top ≤ y) && decide (y < r.bottom)

end Rectangle

inductive RasterError where
  | hugeRectangle (format : PixelFormat)
  | longBuffer
deriving DecidableEq, Repr

def RasterError.message : RasterError → String
  | .hugeRectangle format =>
    "image: New" ++ format.name ++ " Rectangle has huge or negative dimensions"
  | .longBuffer => "runtime error: makeslice: len out of range"

structure Raster where
  bounds : Rectangle
  format : PixelFormat
  pixels : Array (Array Pixel)
deriving DecidableEq, Repr

namespace Raster

def rows (raster : Raster) : List (List Pixel) := raster.pixels.toList.map Array.toList

def filled (bounds : Rectangle) (format : PixelFormat) (pixel : Pixel) : Raster :=
  ⟨bounds, format, Array.replicate bounds.height (Array.replicate bounds.width pixel)⟩

def blank (bounds : Rectangle) (format : PixelFormat) : Raster :=
  filled bounds format format.blank

/-- The greatest number of bytes of a buffer. -/
def longestBuffer : Nat := 0x1000000000000

/-- A new raster, unless its bytes cannot be counted or are too many. -/
def allocate (bounds : Rectangle) (format : PixelFormat) : Except RasterError Raster :=
  let length := format.bytes * bounds.width * bounds.height
  if 0x8000000000000000 ≤ length then .error (.hugeRectangle format)
  else if longestBuffer < length then .error .longBuffer
  else .ok (blank bounds format)

/-- Stores a colour at a pixel; outside of the raster there is nothing to store it in. -/
def set (raster : Raster) (x y : Int) (color : Color) : Raster :=
  if raster.bounds.contains x y then
    let row := (y - raster.bounds.top).toNat
    let column := (x - raster.bounds.left).toNat
    let pixel := raster.format.store color
    { raster with pixels := raster.pixels.modify row (·.setIfInBounds column pixel) }
  else raster

/-- Draws a colour over the part of a rectangle that lies in the raster. -/
def cover (raster : Raster) (area : Rectangle) (color : Color) : Raster :=
  { raster with
    pixels := raster.pixels.mapIdx fun row line =>
      line.mapIdx fun column pixel =>
        if area.contains (raster.bounds.left + column) (raster.bounds.top + row) then
          pixel.cover color
        else pixel }

end Raster

/-- Images of which single pixels can be set. -/
class Surface (ι : Type) where
  bounds : ι → Rectangle
  set : ι → (x y : Int) → Color → ι

instance : Surface Raster := ⟨Raster.bounds, Raster.set⟩

end NoiseShader
