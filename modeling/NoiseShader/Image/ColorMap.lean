import NoiseShader.Image.Color
import NoiseShader.Number.Binary32
import NoiseShader.Text.Quoted

/-!
# Colour maps

A colour map turns the values of a kernel at one position into a colour.  The
built-in maps show values that are not finite in red; the gray and the gradient
map look at the first value, the map of three channels at the first three.

The gradient map runs between two colours by hue, saturation and brightness, with
the hue going round the shorter way.
-/

namespace NoiseShader

open Number
open Text (quoted)

inductive ColorMap where
  | gray (low high : Float32)
  | rgb (low high : Float32)
  | gradient (low high : Float32) (first last : Color)
  /-- Any other choice of colours. -/
  | custom (color : List Float32 → Color)

inductive ColorMapError where
  | emptyRange
  | unknownScheme (name : String)
deriving DecidableEq, Repr

def ColorMapError.message : ColorMapError → String
  | .emptyRange => "invalid color map range"
  | .unknownScheme name => "unknown color scheme " ++ quoted name

/-- The colour of what is not a finite number. -/
def alarmColor : Color := .rgba 255 0 0 255

/-- The position of a value in a range, from 0 at the lower end to 1 at the upper
end and beyond them. -/
def rangeFraction (value low high : Float32) : Float32 :=
  Binary32.clamp ((value - low) / (high - low)) 0 1

/-- The position of a value in a range as a byte. -/
def rangeByte (value low high : Float32) : UInt8 :=
  Binary32.toByte (Binary32.round (rangeFraction value low high * 255))

/-- A colour by hue, saturation and brightness, each between 0 and 1. -/
structure HueColor where
  hue : Float32
  saturation : Float32
  value : Float32

namespace HueColor

def ofChannels (r g b : Float32) : HueColor :=
  let top := Binary32.greater (Binary32.greater r g) b
  let bottom := Binary32.lesser (Binary32.lesser r g) b
  let chroma := top - bottom
  let hue :=
    if chroma == 0 then 0
    else if top == r then (g - b) / (chroma * 6)
    else if top == g then 1 / 3 + (b - r) / (chroma * 6)
    else 2 / 3 + (r - g) / (chroma * 6)
  { hue := if hue < 0 then hue + 1 else hue
    saturation := if 0 < top then chroma / top else 0
    value := top }

def ofColor (color : Color) : HueColor :=
  let c := color.channels
  let part (channel : Nat) : Float32 := Float32.ofNat (channel / 256) / 255
  ofChannels (part c.red) (part c.green) (part c.blue)

/-- The colour at `weight` on the way from one colour to another. -/
def mix (a b : HueColor) (weight : Float32) : HueColor :=
  let ahead := decide (0.5 < b.hue - a.hue)
  let behind := decide (b.hue - a.hue < -0.5)
  let start := if ahead then a.hue + 1 else a.hue
  let stop := if !ahead && behind then b.hue + 1 else b.hue
  let hue := Binary32.mix start stop weight
  { hue := hue - Binary32.floor hue
    saturation := Binary32.mix a.saturation b.saturation weight
    value := Binary32.mix a.value b.value weight }

/-- The channels of a colour.  The hue circle has six sectors; a hue that is not a
number is in none of them. -/
def toColor (c : HueColor) : Color :=
  let h := c.hue
  let chroma := c.saturation * c.value
  let between := chroma * (1 - (Binary32.remainder (h * 6) 2 - 1).abs)
  let base := c.value - chroma
  let (r, g, b) :=
    if 0 ≤ h ∧ h ≤ 1 / 6 then (chroma, between, 0)
    else if 1 / 6 < h ∧ h ≤ 2 / 6 then (between, chroma, 0)
    else if 2 / 6 < h ∧ h ≤ 3 / 6 then (0, chroma, between)
    else if 3 / 6 < h ∧ h ≤ 4 / 6 then (0, between, chroma)
    else if 4 / 6 < h ∧ h ≤ 5 / 6 then (between, 0, chroma)
    else if 5 / 6 < h ∧ h ≤ 1 then (chroma, 0, between)
    else (0, 0, 0)
  .rgba (rangeByte (r + base) 0 1) (rangeByte (g + base) 0 1) (rangeByte (b + base) 0 1) 255

end HueColor

namespace ColorMap

/-- Refuses a map whose range has no length. -/
def checkRange (low high : Float32) (map : ColorMap) : Except ColorMapError ColorMap :=
  if low < high then .ok map else .error .emptyRange

def ofGray (low high : Float32) : Except ColorMapError ColorMap :=
  checkRange low high (.gray low high)

def ofRgb (low high : Float32) : Except ColorMapError ColorMap :=
  checkRange low high (.rgb low high)

def ofGradient (low high : Float32) (first last : Color) : Except ColorMapError ColorMap :=
  checkRange low high (.gradient low high first last)

/-- The map for kernels with a number of components when no other is chosen. -/
def default (components : Int) : ColorMap :=
  if components = 1 then .gray (-1) 1
  else if components = 2 then .gray 0 1
  else .rgb 0 1

/-- The map of a named scheme for kernels with a number of components; the default
scheme leaves the choice open. -/
def ofScheme (name : String) (components : Int) : Except ColorMapError (Option ColorMap) :=
  let low : Float32 := if components = 1 then -1 else 0
  match name with
  | "default" => .ok none
  | "gray" => (ofGray low 1).map some
  | "rgb" => (ofRgb low 1).map some
  | "heat" => (ofGradient low 1 (.rgba 0 0 255 255) (.rgba 255 0 0 255)).map some
  | _ => .error (.unknownScheme name)

/-- The colour of values, if there are enough of them. -/
def color? (map : ColorMap) (values : List Float32) : Option Color :=
  match map with
  | gray low high => do
    let value ← values.head?
    if Binary32.isFinite value then return .gray (rangeByte value low high)
    else return alarmColor
  | rgb low high =>
    let shown := values.take 3
    if shown.all Binary32.isFinite then
      match shown.map (rangeByte · low high) with
      | red :: green :: blue :: _ => some (.rgba red green blue 255)
      | [red, green] => some (.rgba red green 0 255)
      | [red] => some (.rgba red 0 0 255)
      | [] => some (.rgba 0 0 0 255)
    else some alarmColor
  | gradient low high first last => do
    let value ← values.head?
    if Binary32.isFinite value then
      let weight := rangeFraction value low high
      return ((HueColor.ofColor first).mix (HueColor.ofColor last) weight).toColor
    else return alarmColor
  | custom color => some (color values)

end ColorMap

end NoiseShader
