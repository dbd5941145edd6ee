import NoiseShader.Kernel.Basic

/-!
# Grids of positions

A grid covers a rectangle with equally spaced positions, row by row from the lower
corner.  The corners of the rectangle are positions of the grid as far as the
rounding of the spacing allows.

The positions of a grid are counted in a machine word before they are appended, and
there is a longest buffer that they can be appended to.
-/

namespace NoiseShader.Grid

open Number (Format)

inductive Error where
  | emptyGrid
  | negativeGrowth
  | longBuffer
deriving DecidableEq, Repr

def Error.message : Error → String
  | .emptyGrid => "grid dimensions must be positive"
  | .negativeGrowth => "cannot be negative"
  | .longBuffer => "runtime error: growslice: len out of range"

/-- The distance between neighbours of `count` samples from `low` to `high`. -/
def spacing (low high : Float32) (count : Nat) : Float32 :=
  if 1 < count then (high - low) / Float32.ofNat (count - 1) else high - low

def coordinate (low spacing : Float32) (index : Nat) : Float32 :=
  low + Float32.ofNat index * spacing

/-- The word of a computed coordinate.  One that is not a number has the word of
the bound it comes from, made quiet, and the lower bound comes first; it has the
negative quiet word when both bounds are numbers. -/
def coordinateWord (low high : UInt32) (value : Float32) : UInt32 :=
  if value.isNaN then
    if (Float32.ofBits low).isNaN then low ||| 0x00400000
    else if (Float32.ofBits high).isNaN then high ||| 0x00400000
    else 0xffc00000
  else value.toBits

/-- The samples of one axis. -/
def axis (low high : UInt32) (count : Nat) : List UInt32 :=
  let first := Float32.ofBits low
  let step := spacing first (Float32.ofBits high) count
  (List.range count).map fun index => coordinateWord low high (coordinate first step index)

/-- The positions of a grid of `columns` by `rows` over a rectangle. -/
def positions (low high : Point) (columns rows : Nat) : List Point :=
  let xs := axis low.x high.x columns
  (axis low.y high.y rows).flatMap fun y => xs.map fun x => ⟨x, y⟩

/-- The greatest number of positions of a buffer. -/
def longestBuffer : Nat := 0x200000000000

/-- The check that a buffer of `length` positions can grow by a grid. -/
def checkGrowth (length : Nat) (columns rows : Int) : Except Error Unit :=
  let count := machineInt (columns * rows)
  if count < 0 then .error .negativeGrowth
  else if longestBuffer < length + count then .error .longBuffer
  else .ok ()

/-- The positions of a grid behind others. -/
def append (before : List Point) (low high : Point) (columns rows : Int) :
    Except Error (List Point) :=
  if columns < 1 ∨ rows < 1 then .error .emptyGrid
  else
    match checkGrowth before.length columns rows with
    | .error e => .error e
    | .ok () =>
      -- the word of a count can be small where the count is not
      if longestBuffer < before.length + columns * rows then .error .longBuffer
      else .ok (before ++ positions low high columns.toNat rows.toNat)

end NoiseShader.Grid
