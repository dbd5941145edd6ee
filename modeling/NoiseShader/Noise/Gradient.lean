import NoiseShader.Vector.Basic

/-!
# Gradient noise with derivatives

A position lies in a cell of the unit lattice.  Each corner of the cell carries a
gradient, which gives a linear function that vanishes at the corner; the four
functions are blended with a cubic weight.  `blendCorners` is that blend and its
two partial derivatives, written over any type with arithmetic, so that the
derivatives can be compared with the value over exact numbers.
-/

namespace NoiseShader.Noise

open Vec

section Blend

variable {α : Type} [Add α] [Sub α] [Mul α]
  [OfNat α 0] [OfNat α 1] [OfNat α 2] [OfNat α 3] [OfNat α 6]

/-- The gradients at the corners of a cell, from the lower left one: the corner
itself, the next one to the right, the next one above, and the opposite one. -/
structure Corners (α : Type) where
  a : Vec2 α
  b : Vec2 α
  c : Vec2 α
  d : Vec2 α

/-- The blend of the linear functions of the corners at the offset `f` into the
cell, followed by its derivatives. -/
def blendCorners (g : Corners α) (f : Vec2 α) : Vec3 α :=
  let u : Vec2 α := mul (mul f f) (scalarSub 3 (mulScalar f 2))
  let du : Vec2 α := mul (mulScalar f 6) (scalarSub 1 f)
  let va := dot g.a f
  let vb := dot g.b (sub f ⟨1, 0⟩)
  let vc := dot g.c (sub f ⟨0, 1⟩)
  let vd := dot g.d (sub f ⟨1, 1⟩)
  let k := va - vb - vc + vd
  let value := va + u.x * (vb - va) + u.y * (vc - va) + u.x * u.y * k
  let linear : Vec2 α :=
    add (add (add g.a (mulScalar (sub g.b g.a) u.x)) (mulScalar (sub g.c g.a) u.y))
      (mulScalar (add (sub (sub g.a g.b) g.c) g.d) (u.x * u.y))
  let weight : Vec2 α := subScalar (add (mulScalar ⟨u.y, u.x⟩ k) ⟨vb, vc⟩) va
  let derivative := add linear (mul du weight)
  ⟨value, derivative.x, derivative.y⟩

end Blend

def gradientFactors : Vec2 Float32 := ⟨0.3183099, 0.3678794⟩

/-- A gradient for every lattice point, with components between -1 and 1. -/
def latticeGradient (point : Vec2 Float32) : Vec2 Float32 :=
  let k := gradientFactors
  let x := add (mul point k) ⟨k.y, k.x⟩
  let s := Number.Binary32.fraction (x.x * x.y * (x.x + x.y))
  addScalar (mulScalar (fraction (mulScalar (mulScalar k 16) s)) 2) (-1)

/-- The value of the noise and its derivatives along the two axes. -/
def gradient (p : Vec2 Float32) : Vec3 Float32 :=
  let i := floor p
  blendCorners
    { a := latticeGradient i
      b := latticeGradient (add i ⟨1, 0⟩)
      c := latticeGradient (add i ⟨0, 1⟩)
      d := latticeGradient (add i ⟨1, 1⟩) }
    (fraction p)

end NoiseShader.Noise
