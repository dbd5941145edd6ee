import NoiseShader.Image.Raster

/-!
# Captions

A caption is a line of text at the lower left corner of a raster, on a strip of the
background colour if there is one.  The strip is as high as a line of the font with
a margin above and below, and as wide as the text with a margin on both sides.

Fonts are read, measured and drawn by a typesetter, of which nothing else is known
here.  Its lengths are in sixty-fourths of a pixel.
-/

namespace NoiseShader

/-- The font data of a caption: the built-in font or the bytes of another one. -/
inductive FontSource where
  | builtin
  | bytes (data : List UInt8)
deriving DecidableEq, Repr

/-- A font at a size. -/
structure Face where
  /-- How far a line reaches above its base line. -/
  ascent : Int
  descent : Int
  /-- How far a text reaches to the right. -/
  advance : String → Int
  /-- Draws a text in a colour, its base line beginning at a point. -/
  drawText : (x y : Int) → Color → String → Raster → Raster

structure Typesetter where
  /-- A font at a size in points, or why it cannot be read. -/
  face : FontSource → (size : Float) → Except String Face

inductive CaptionError where
  | negativeSize
  | font (reason : String)
deriving DecidableEq, Repr

def CaptionError.message : CaptionError → String
  | .negativeSize => "negative font size"
  | .font reason => reason

structure Captioner where
  face : Face
  foreground : Color
  background : Option Color

namespace Captioner

/-- A captioner for a font.  A size of zero stands for twelve points, and the text is
white unless it has another colour. -/
def create (typesetter : Typesetter) (font : FontSource) (size : Float)
    (foreground background : Option Color) : Except CaptionError Captioner :=
  if size < 0 then .error .negativeSize
  else
    match typesetter.face font (if size == 0 then 12 else size) with
    | .error reason => .error (.font reason)
    | .ok face => .ok ⟨face, foreground.getD (.gray16 0xffff), background⟩

/-- The captioner used when none is given: white on black. -/
def default (typesetter : Typesetter) : Except CaptionError Captioner :=
  create typesetter .builtin 0 none (some (.gray16 0))

/-- The number of pixels that cover a length. -/
def pixels (length : Int) : Int := (length + 63) / 64

/-- Width and height of a text in pixels. -/
def measure (c : Captioner) (text : String) : Int × Int :=
  (pixels (c.face.advance text), pixels (c.face.ascent + c.face.descent))

def margin : Int := 4

/-- The strip behind a text. -/
def strip (c : Captioner) (bounds : Rectangle) (text : String) : Rectangle :=
  let (width, height) := c.measure text
  .ofCorners bounds.left (bounds.bottom - height - 2 * margin)
    (bounds.left + width + 2 * margin) bounds.bottom

/-- Draws a caption. -/
def draw (c : Captioner) (raster : Raster) (text : String) : Raster :=
  let b := raster.bounds
  let backed :=
    match c.background with
    | none => raster
    | some color => raster.cover (c.strip b text) color
  c.face.drawText (64 * (b.left + margin)) (64 * (b.bottom - margin) - c.face.descent) c.foreground
    text backed

end Captioner

end NoiseShader
