import NoiseShader.Image.Caption
import NoiseShader.Image.Renderer

/-!
# Pictures

A picture is a kernel painted over a domain, with a caption where one is asked
for.
-/

namespace NoiseShader

inductive PictureError where
  | badDimensions
  | raster (cause : RasterError)
  | painting (cause : PaintError)
  | caption (cause : CaptionError)
deriving DecidableEq, Repr

def PictureError.message : PictureError → String
  | .badDimensions => "invalid image dimensions"
  | .raster cause => cause.message
  | .painting cause => cause.message
  | .caption cause => cause.message

structure Picture where
  width : Int
  height : Int
  domain : Domain
  colors : Option ColorMap
  /-- An empty caption is not drawn. -/
  caption : String
  /-- The default captioner is made for a caption when there is no other. -/
  captioner : Option Captioner

namespace Picture

/-- Draws the caption of a picture. -/
def annotate (typesetter : Typesetter) (picture : Picture) (raster : Raster) :
    Except PictureError Raster :=
  if picture.caption = "" then .ok raster
  else
    let found : Except CaptionError Captioner :=
      match picture.captioner with
      | some captioner => .ok captioner
      | none => Captioner.default typesetter
    match found with
    | .error e => .error (.caption e)
    | .ok captioner => .ok (captioner.draw raster picture.caption)

def create {σ : Type} (typesetter : Typesetter) (picture : Picture) (kernel : Kernel σ)
    (state : σ) : Except PictureError Raster :=
  if picture.width ≤ 0 ∨ picture.height ≤ 0 then .error .badDimensions
  else
    match Raster.allocate (.ofCorners 0 0 picture.width picture.height) .rgba with
    | .error e => .error (.raster e)
    | .ok canvas =>
      match Renderer.create (max 4096 picture.width) picture.colors with
      | .error e => .error (.painting e)
      | .ok renderer =>
        let painting := renderer.paintOn kernel state picture.domain canvas
        match painting.outcome with
        | .error e => .error (.painting e)
        | .ok () => picture.annotate typesetter painting.image

end Picture

end NoiseShader
