import NoiseShader.Image.Caption
import NoiseShader.Number.Format

/-!
# The built-in font without its outlines

A typesetter that knows how far the built-in font reaches above and below its base
line, but not its letters: they leave no marks, and each of them is taken to be half
an em wide.  No other font is read.
-/

namespace NoiseShader.Font

open Number (Format)

/-- Units per em of the built-in font, and how far it reaches above and below the
base line. -/
def unitsPerEm : Nat := 2048

def ascentUnits : Nat := 1935

def descentUnits : Nat := 432

/-- The whole part of a nonnegative double precision number. -/
def wholePart (x : Float) : Nat :=
  match Format.binary64.decode x.toBits.toNat with
  | .finite false significand exponent =>
    if 0 ≤ exponent then significand <<< exponent.toNat
    else significand >>> (-exponent).toNat
  | _ => 0

/-- The em of the font at a size in points: twelve points unless the size is
positive. -/
def emOf (size : Float) : Nat := wholePart (0.5 + (if 0 < size then size else 12) * 64)

def scaledUp (em units : Nat) : Nat := (em * units + unitsPerEm - 1) / unitsPerEm

def tooShort : String := "freetype: invalid TrueType format: TTF data is too short"

def check : FontSource → Except String Unit
  | .builtin => .ok ()
  | .bytes data =>
    if data.length < 12 then .error tooShort
    else if data.take 4 ≠ [0, 1, 0, 0] then
      .error "freetype: invalid TrueType format: bad TTF version"
    else .error tooShort

def typesetter : Typesetter where
  face source size := do
    check source
    let em := emOf size
    return {
      ascent := scaledUp em ascentUnits
      descent := scaledUp em descentUnits
      advance := fun text => text.length * em / 2
      drawText := fun _ _ _ _ raster => raster }

end NoiseShader.Font
