import NoiseShader.Noise.Hash

/-!
# Simplex noise

Gradient noise on the triangular lattice.  A position belongs to one of two
triangles of its cell; the three corners of the triangle contribute with a weight
that falls to zero at the opposite side.
-/

namespace NoiseShader.Noise

open Vec

/-- The constants `(3 - √3) / 6`, `(√3 - 1) / 2`, `(3 - √3) / 3 - 1` and `1 / 41`. -/
def simplexConstants : Vec4 Float32 :=
  ⟨0.211324865405187, 0.366025403784439, -0.577350269189626, 0.024390243902439⟩

def simplex (v : Vec2 Float32) : Float32 :=
  let c := simplexConstants
  let cell := floor (addScalar v (dot v ⟨c.y, c.y⟩))
  let x0 := addScalar (sub v cell) (dot cell ⟨c.x, c.x⟩)
  let i1 : Vec2 Float32 := if x0.y < x0.x then ⟨1, 0⟩ else ⟨0, 1⟩
  let far : Vec4 Float32 := add ⟨x0.x, x0.y, x0.x, x0.y⟩ ⟨c.x, c.x, c.z, c.z⟩
  let x1 : Vec2 Float32 := ⟨far.x - i1.x, far.y - i1.y⟩
  let x2 : Vec2 Float32 := ⟨far.z, far.w⟩
  let i := mod289 cell
  let rows : Vec3 Float32 := permute (addScalar ⟨0, i1.y, 1⟩ i.y)
  let hash := permute (add (addScalar rows i.x) ⟨0, i1.x, 1⟩)
  let near : Vec3 Float32 := maximumScalar (scalarSub 0.5 ⟨dot x0 x0, dot x1 x1, dot x2 x2⟩) 0
  let square := mul near near
  let weight := mul square square
  let x := subScalar (mulScalar (fraction (mulScalar hash c.w)) 2) 1
  let h := subScalar (abs x) 0.5
  let a := sub x (floor (addScalar x 0.5))
  let m := mul weight (inverseSqrt (add (mul a a) (mul h h)))
  let slopes : Vec2 Float32 := add (mul ⟨a.y, a.z⟩ ⟨x1.x, x2.x⟩) (mul ⟨h.y, h.z⟩ ⟨x1.y, x2.y⟩)
  let g : Vec3 Float32 := ⟨a.x * x0.x + h.x * x0.y, slopes.x, slopes.y⟩
  130 * dot m g

end NoiseShader.Noise
