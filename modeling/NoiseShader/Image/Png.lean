import NoiseShader.Image.Raster
import NoiseShader.Text.Basic

/-!
# Picture files

A raster is written in the PNG format: a signature followed by chunks, each with
its length in front and a checksum behind.  Rows of pixels are stored in blocks
without compression.  Pixels in the file are not multiplied by alpha.
-/

namespace NoiseShader.Png

/-- A number in so many bytes, the highest byte first. -/
def bigEndian (count value : Nat) : List UInt8 :=
  (List.range count).map fun i => UInt8.ofNat (value >>> (8 * (count - 1 - i)))

/-- A number in so many bytes, the lowest byte first. -/
def littleEndian (count value : Nat) : List UInt8 :=
  (List.range count).map fun i => UInt8.ofNat (value >>> (8 * i))

/-- One bit of the shift register of the chunk checksum. -/
def shiftBit (register : UInt32) : UInt32 :=
  if register &&& 1 = 1 then (register >>> 1) ^^^ 0xedb88320 else register >>> 1

def shiftByte (register : UInt32) (byte : UInt8) : UInt32 :=
  Nat.repeat shiftBit 8 (register ^^^ byte.toUInt32)

/-- The checksum of a chunk. -/
def cyclicChecksum (bytes : List UInt8) : UInt32 :=
  bytes.foldl shiftByte 0xffffffff ^^^ 0xffffffff

/-- The sum of the bytes plus one and the sum of its running values, both modulo
65521. -/
def runningSums (bytes : List UInt8) : Nat × Nat :=
  bytes.foldl
    (fun (sum, total) byte =>
      let next := (sum + byte.toNat) % 65521
      (next, (total + next) % 65521))
    (1, 0)

/-- The checksum of stored data. -/
def sumChecksum (bytes : List UInt8) : Nat :=
  let (sum, total) := runningSums bytes
  total * 65536 + sum

def blockSize : Nat := 65535

/-- A block that holds its bytes as they are. -/
def storedBlock (isLast : Bool) (bytes : List UInt8) : List UInt8 :=
  (if isLast then 1 else 0) :: littleEndian 2 bytes.length ++
    littleEndian 2 (blockSize - bytes.length) ++ bytes

/-- Data as a stream of stored blocks. -/
def stored (bytes : List UInt8) : List UInt8 :=
  let count := max 1 ((bytes.length + blockSize - 1) / blockSize)
  let blocks := (List.range count).map fun i =>
    storedBlock (i + 1 == count) ((bytes.drop (i * blockSize)).take blockSize)
  [0x78, 0x01] ++ blocks.flatten ++ bigEndian 4 (sumChecksum bytes)

def chunk (name : String) (bytes : List UInt8) : List UInt8 :=
  let body := Text.bytes name ++ bytes
  bigEndian 4 bytes.length ++ body ++ bigEndian 4 (cyclicChecksum body).toNat

/-- A channel without its share of alpha. -/
def straight (channel alpha : UInt8) : UInt8 :=
  if alpha = 0 then 0 else highByte (widen channel * 0xffff / widen alpha)

def pixelBytes : Pixel → List UInt8
  | .rgba red green blue alpha =>
    [straight red alpha, straight green alpha, straight blue alpha, alpha]
  | .gray level => [level]

/-- The number that tells how pixels are kept. -/
def pixelKind : PixelFormat → UInt8
  | .rgba => 6
  | .gray => 0

/-- The bytes of a row; the first tells that the row is not filtered. -/
def rowBytes (row : List Pixel) : List UInt8 := 0 :: row.flatMap pixelBytes

def signature : List UInt8 := [0x89, 0x50, 0x4e, 0x47, 0x0d, 0x0a, 0x1a, 0x0a]

/-- The size of a raster, eight bits per channel and the kind of its pixels. -/
def header (raster : Raster) : List UInt8 :=
  bigEndian 4 raster.bounds.width ++ bigEndian 4 raster.bounds.height ++
    [8, pixelKind raster.format, 0, 0, 0]

/-- The content of a file with a raster. -/
def encode (raster : Raster) : List UInt8 :=
  signature ++ chunk "IHDR" (header raster) ++
    chunk "IDAT" (stored (raster.rows.flatMap rowBytes)) ++ chunk "IEND" []

end NoiseShader.Png
