/-!
# Colours and pixels

A colour has four channels of sixteen bits, with red, green and blue already
multiplied by alpha.  A raster keeps bytes: either one byte per channel or one
byte of brightness per pixel.
-/

namespace NoiseShader

inductive Color where
  /-- Channels that are already multiplied by alpha. -/
  | rgba (red green blue alpha : UInt8)
  /-- Channels that are not multiplied by alpha. -/
  | nrgba (red green blue alpha : UInt8)
  | gray (level : UInt8)
  | gray16 (level : UInt16)
deriving DecidableEq, Repr

/-- Sixteen-bit channels. -/
structure Channels where
  red : Nat
  green : Nat
  blue : Nat
  alpha : Nat
deriving DecidableEq, Repr

def widen (byte : UInt8) : Nat := byte.toNat * 0x101

def Color.channels : Color → Channels
  | .rgba red green blue alpha => ⟨widen red, widen green, widen blue, widen alpha⟩
  | .nrgba red green blue alpha =>
    let scaled (byte : UInt8) : Nat := widen byte * alpha.toNat / 255
    ⟨scaled red, scaled green, scaled blue, widen alpha⟩
  | .gray level => ⟨widen level, widen level, widen level, 0xffff⟩
  | .gray16 level => ⟨level.toNat, level.toNat, level.toNat, 0xffff⟩

inductive Pixel where
  | rgba (red green blue alpha : UInt8)
  | gray (level : UInt8)
deriving DecidableEq, Repr

inductive PixelFormat where
  | rgba
  | gray
deriving DecidableEq, Repr

def highByte (channel : Nat) : UInt8 := UInt8.ofNat (channel / 256)

/-- The brightness of a colour, weighted by channel. -/
def Color.brightness (color : Color) : UInt8 :=
  match color with
  | .gray level => level
  | _ =>
    let c := color.channels
    UInt8.ofNat ((19595 * c.red + 38470 * c.green + 7471 * c.blue + 32768) >>> 24)

namespace PixelFormat

def name : PixelFormat → String
  | rgba => "RGBA"
  | gray => "Gray"

/-- The number of bytes of a pixel. -/
def bytes : PixelFormat → Nat
  | rgba => 4
  | gray => 1

def blank : PixelFormat → Pixel
  | rgba => .rgba 0 0 0 0
  | gray => .gray 0

/-- The pixel that stores a colour. -/
def store (format : PixelFormat) (color : Color) : Pixel :=
  match format with
  | rgba =>
    let c := color.channels
    .rgba (highByte c.red) (highByte c.green) (highByte c.blue) (highByte c.alpha)
  | gray => .gray color.brightness

end PixelFormat

/-- A colour drawn over a pixel. -/
def Pixel.cover (pixel : Pixel) (color : Color) : Pixel :=
  let c := color.channels
  let blended (below : UInt8) (channel : Nat) : UInt8 :=
    if c.alpha = 0xffff then highByte channel
    else highByte (below.toNat * ((0xffff - c.alpha) * 0x101) / 0xffff + channel)
  match pixel with
  | .rgba red green blue alpha =>
    .rgba (blended red c.red) (blended green c.green) (blended blue c.blue) (blended alpha c.alpha)
  | .gray level => .gray (blended level c.red)

end NoiseShader
