import NoiseShader.Vector.Basic

/-!
# Hashes of positions

The gradient and cellular kernels derive a pseudo-random number from lattice
coordinates by a quadratic polynomial modulo 289, small enough for the products to
stay exact in single precision.  White noise hashes any position, to three
unrelated numbers from zero up to one.
-/

namespace NoiseShader.Noise

open Vec

variable {V : Type → Type} [Components V]

/-- The remainder of the floored division by `modulus`, as the rounded operations
give it. -/
def reduce (modulus : Float32) (x : V Float32) : V Float32 :=
  sub x (mulScalar (floor (divScalar x modulus)) modulus)

def mod289 (x : V Float32) : V Float32 := reduce 289 x

def mod7 (x : V Float32) : V Float32 := reduce 7 x

/-- The polynomial hash `(34 x + 10) x`, reduced modulo 289. -/
def permute (x : V Float32) : V Float32 :=
  mod289 (mul (addScalar (mulScalar x 34) 10) x)

/-- The first two terms of the inverse square root around 0.7. -/
def inverseSqrt (r : V Float32) : V Float32 :=
  scalarSub 1.79284291400159 (mulScalar r 0.85373472095314)

/-- The quintic interpolant `t ^ 3 (t (6 t - 15) + 10)`. -/
def fade (t : V Float32) : V Float32 :=
  mul (mul (mul t t) t) (addScalar (mul t (subScalar (mulScalar t 6) 15)) 10)

def whiteFrequency : Vec3 Float32 := ⟨123.34, 234.34, 345.65⟩

def white (p : Vec2 Float32) : Vec3 Float32 :=
  let start := fraction (mul ⟨p.x, p.y, p.x⟩ whiteFrequency)
  let a := addScalar start (dot start (addScalar start 34.45))
  fraction ⟨a.x * a.y, a.y * a.z, a.z * a.x⟩

end NoiseShader.Noise
