import NoiseShader.Noise.Hash

/-!
# Cellular noise

Every cell of the unit lattice holds one feature point, moved from the centre of
the cell by a hash of the cell.  The noise is the distance to the nearest and to
the second nearest feature point of the three by three cells around a position.
-/

namespace NoiseShader.Noise

open Vec
open Number (Binary32.minimum)

def cellularScale : Float32 := 0.142857142857

def cellularCentre : Float32 := 0.428571428571

def cellularJitter : Float32 := 1

def cellularNeighbours : Vec3 Float32 := ⟨-1, 0, 1⟩

def cellularOffsets : Vec3 Float32 := ⟨-0.5, 0.5, 1.5⟩

/-- The squared distances to the feature points of a column of three cells.  The
column is given by its hash and by the horizontal offset from the position to the
centres of its cells. -/
def cellularColumn (hash : Float32) (offset : Vec2 Float32) (shift : Float32) : Vec3 Float32 :=
  let p := permute (addScalar cellularNeighbours hash)
  let scaled := mulScalar p cellularScale
  let ox := subScalar (fraction scaled) cellularCentre
  let oy := subScalar (mulScalar (mod7 (floor scaled)) cellularScale) cellularCentre
  let dx := addScalar (mulScalar ox cellularJitter) (offset.x + shift)
  let dy := add (scalarSub offset.y cellularOffsets) (mulScalar oy cellularJitter)
  add (mul dx dx) (mul dy dy)

/-- The two smallest of nine numbers, the smaller one first. -/
def twoSmallest (d1 d2 d3 : Vec3 Float32) : Vec2 Float32 :=
  let first := minimum d1 d2
  let second := minimum (maximum d1 d2) d3
  let low := minimum first second
  let high := maximum first second
  let low : Vec3 Float32 := if low.x < low.y then low else ⟨low.y, low.x, low.z⟩
  let low : Vec3 Float32 := if low.x < low.z then low else ⟨low.z, low.y, low.x⟩
  let rest : Vec2 Float32 := minimum ⟨low.y, low.z⟩ ⟨high.y, high.z⟩
  ⟨low.x, Binary32.minimum (Binary32.minimum rest.x rest.y) high.x⟩

def cellular (p : Vec2 Float32) : Vec2 Float32 :=
  let cell := mod289 (floor p)
  let offset := fraction p
  let columns := permute (addScalar cellularNeighbours cell.x)
  let d1 := cellularColumn (columns.x + cell.y) offset 0.5
  let d2 := cellularColumn (columns.y + cell.y) offset (-0.5)
  let d3 := cellularColumn (columns.z + cell.y) offset (-1.5)
  sqrt (twoSmallest d1 d2 d3)

end NoiseShader.Noise
