import NoiseShader.Noise.Hash

/-!
# Perlin noise

Classic gradient noise on the square lattice.  The four corners of a cell are
handled together in the components of one vector, in the order lower left, lower
right, upper left, upper right.
-/

namespace NoiseShader.Noise

open Vec
open Number (Binary32.mix)

/-- The corner that each component of a vector belongs to, as offsets. -/
def cornerOffsets : Vec4 Float32 := ⟨0, 0, 1, 1⟩

def perlin (p : Vec2 Float32) : Float32 :=
  let both : Vec4 Float32 := ⟨p.x, p.y, p.x, p.y⟩
  let cell := mod289 (add (floor both) cornerOffsets)
  let offset := sub (fraction both) cornerOffsets
  let ix : Vec4 Float32 := ⟨cell.x, cell.z, cell.x, cell.z⟩
  let iy : Vec4 Float32 := ⟨cell.y, cell.y, cell.w, cell.w⟩
  let fx : Vec4 Float32 := ⟨offset.x, offset.z, offset.x, offset.z⟩
  let fy : Vec4 Float32 := ⟨offset.y, offset.y, offset.w, offset.w⟩
  let hash := permute (add (permute ix) iy)
  let line := subScalar (mulScalar (fraction (mulScalar hash (1 / 41))) 2) 1
  let gy := subScalar (abs line) 0.5
  let gx := sub line (floor (addScalar line 0.5))
  let g00 : Vec2 Float32 := ⟨gx.x, gy.x⟩
  let g10 : Vec2 Float32 := ⟨gx.y, gy.y⟩
  let g01 : Vec2 Float32 := ⟨gx.z, gy.z⟩
  let g11 : Vec2 Float32 := ⟨gx.w, gy.w⟩
  let norm : Vec4 Float32 := inverseSqrt ⟨dot g00 g00, dot g01 g01, dot g10 g10, dot g11 g11⟩
  let n00 := dot (mulScalar g00 norm.x) ⟨fx.x, fy.x⟩
  let n01 := dot (mulScalar g01 norm.y) ⟨fx.z, fy.z⟩
  let n10 := dot (mulScalar g10 norm.z) ⟨fx.y, fy.y⟩
  let n11 := dot (mulScalar g11 norm.w) ⟨fx.w, fy.w⟩
  let weight : Vec2 Float32 := fade ⟨offset.x, offset.y⟩
  let row : Vec2 Float32 := mixScalar ⟨n00, n01⟩ ⟨n10, n11⟩ weight.x
  2.3 * Binary32.mix row.x row.y weight.y

end NoiseShader.Noise
