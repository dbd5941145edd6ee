import NoiseShader.Text.Basic

/-!
# Fingerprints of text

The fingerprint of a text is a 64-bit word.  The text is cut into blocks of eight
bytes, read with the least significant byte first and the last one filled up with
zeros, and each block is mixed into the running word.
-/

namespace NoiseShader.Fingerprint

def littleEndian (bytes : List UInt8) : UInt64 :=
  bytes.foldr (fun byte rest => byte.toUInt64 ||| (rest <<< 8)) 0

def blocks : List UInt8 → List UInt64
  | b0 :: b1 :: b2 :: b3 :: b4 :: b5 :: b6 :: b7 :: rest =>
    littleEndian [b0, b1, b2, b3, b4, b5, b6, b7] :: blocks rest
  | [] => []
  | short => [littleEndian short]

def scramble (x : UInt64) : UInt64 :=
  let y := (x ^^^ (x >>> 30)) * 0xbf58476d1ce4e5b9
  let z := (y ^^^ (y >>> 27)) * 0x94d049bb133111eb
  z ^^^ (z >>> 31)

def absorb (state block : UInt64) : UInt64 := scramble (state ^^^ block)

/-- The fingerprint of bytes, starting from the word `seed`. -/
def ofBytes (seed : UInt64) (bytes : List UInt8) : UInt64 := (blocks bytes).foldl absorb seed

def ofText (seed : UInt64) (text : String) : UInt64 := ofBytes seed (Text.bytes text)

end NoiseShader.Fingerprint
