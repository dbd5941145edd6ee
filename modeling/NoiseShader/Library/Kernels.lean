import NoiseShader.Library.Shared

/-!
# Noise kernels as shader definitions

Each kernel is a list of definitions with the helpers before the functions that
call them and the kernel last.
-/

namespace NoiseShader.Library

/-- The squared distances to the feature points of a column of three cells. -/
def cellularColumn : Definition :=
  let p := name "p"
  let ox := name "ox"
  let oy := name "oy"
  let dx := name "dx"
  let dy := name "dy"
  let offset := name "Pf"
  let k : Node := 0.142857142857
  let ko : Node := 0.428571428571
  let jitter : Node := 1
  ⟨"cellularColumn", "vec3", [⟨"float", "hx"⟩, ⟨"vec2", "Pf"⟩, ⟨"float", "xoff"⟩],
    [declare "vec3" "p"
        (call "permutev3" [call "vec3" [number (-1), 0, 1] + name "hx"]),
      declare "vec3" "ox" (call "fract" [p * k] - ko),
      declare "vec3" "oy" (call "mod7v3" [call "floor" [p * k]] * k - ko),
      declare "vec3" "dx" (ox * jitter + (select offset 2 "x" + name "xoff")),
      declare "vec3" "dy"
        (select offset 2 "y" - call "vec3" [number (-0.5), 0.5, 1.5] + oy * jitter),
      .result (dx * dx + dy * dy)]⟩

/-- The distances to the nearest and the second nearest feature point. -/
def cellularKernel : Definition :=
  let position := name "P"
  let cell := name "Pi"
  let offset := name "Pf"
  let px := name "px"
  let d1 := name "d1"
  let d2 := name "d2"
  let d3 := name "d3"
  let d1a := name "d1a"
  let column (letter : String) (shift : Float32) : Node :=
    call "cellularColumn" [select px 3 letter + select cell 2 "y", offset, number shift]
  let exchange (a b : String) : Node :=
    .assignment (select d1 3 (a ++ b))
      (.conditional (.binary "<" (select d1 3 a) (select d1 3 b))
        (select d1 3 (a ++ b)) (select d1 3 (b ++ a)))
  define "vec2" "cellular" "vec2" "P"
    [declare "vec2" "Pi" (call "mod289v2" [call "floor" [position]]),
      declare "vec2" "Pf" (call "fract" [position]),
      declare "vec3" "px"
        (call "permutev3" [call "vec3" [number (-1), 0, 1] + select cell 2 "x"]),
      declare "vec3" "d1" (column "x" 0.5),
      declare "vec3" "d2" (column "y" (-0.5)),
      declare "vec3" "d3" (column "z" (-1.5)),
      declare "vec3" "d1a" (call "min" [d1, d2]),
      .assignment d2 (call "max" [d1, d2]),
      .assignment d2 (call "min" [d2, d3]),
      .assignment d1 (call "min" [d1a, d2]),
      .assignment d2 (call "max" [d1a, d2]),
      exchange "x" "y",
      exchange "x" "z",
      .assignment (select d1 3 "yz") (call "min" [select d1 3 "yz", select d2 3 "yz"]),
      .assignment (select d1 3 "y") (call "min" [select d1 3 "y", select d1 3 "z"]),
      .assignment (select d1 3 "y") (call "min" [select d1 3 "y", select d2 3 "x"]),
      .result (call "sqrt" [select d1 3 "xy"])]

def cellular : List Definition :=
  [mod289v2, mod289v3, mod7v3, permutev3, cellularColumn, cellularKernel]

/-- Classic gradient noise on a square lattice. -/
def perlinKernel : Definition :=
  let position := name "P"
  let cell := name "Pi"
  let offset := name "Pf"
  let gx := name "gx"
  let gy := name "gy"
  let fx := name "fx"
  let fy := name "fy"
  let norm := name "norm"
  let nx := name "n_x"
  let fade := name "fade_xy"
  let corner := call "vec4" [0, 0, 1, 1]
  let gradient (g letter : String) : Node :=
    declare "vec2" g (call "vec2" [select gx 4 letter, select gy 4 letter])
  let normalize (g letter : String) : Node :=
    .assignment (name g) (name g * select norm 4 letter)
  let cornerDot (n g letter : String) : Node :=
    declare "float" n (call "dot" [name g, call "vec2" [select fx 4 letter, select fy 4 letter]])
  let selfDot (g : String) : Node := call "dot" [name g, name g]
  define "float" "perlin" "vec2" "P"
    [declare "vec4" "Pi" (call "floor" [select position 2 "xyxy"] + corner),
      declare "vec4" "Pf" (call "fract" [select position 2 "xyxy"] - corner),
      .assignment cell (call "mod289v4" [cell]),
      declare "vec4" "ix" (select cell 4 "xzxz"),
      declare "vec4" "iy" (select cell 4 "yyww"),
      declare "vec4" "fx" (select offset 4 "xzxz"),
      declare "vec4" "fy" (select offset 4 "yyww"),
      declare "vec4" "i" (call "permutev4" [call "permutev4" [name "ix"] + name "iy"]),
      declare "vec4" "gx" (call "fract" [name "i" * number (1 / 41)] * 2 - 1),
      declare "vec4" "gy" (call "abs" [gx] - 0.5),
      declare "vec4" "tx" (call "floor" [gx + 0.5]),
      .assignment gx (gx - name "tx"),
      gradient "g00" "x",
      gradient "g10" "y",
      gradient "g01" "z",
      gradient "g11" "w",
      declare "vec4" "norm"
        (call "taylorInvSqrtv4"
          [call "vec4" [selfDot "g00", selfDot "g01", selfDot "g10", selfDot "g11"]]),
      normalize "g00" "x",
      normalize "g01" "y",
      normalize "g10" "z",
      normalize "g11" "w",
      cornerDot "n00" "g00" "x",
      cornerDot "n10" "g10" "y",
      cornerDot "n01" "g01" "z",
      cornerDot "n11" "g11" "w",
      declare "vec2" "fade_xy" (call "fadev2" [select offset 4 "xy"]),
      declare "vec2" "n_x"
        (call "mix" [call "vec2" [name "n00", name "n01"], call "vec2" [name "n10", name "n11"],
          select fade 2 "x"]),
      declare "float" "n_xy" (call "mix" [select nx 2 "x", select nx 2 "y", select fade 2 "y"]),
      .result (2.3 * name "n_xy")]

def perlin : List Definition := [mod289v4, permutev4, taylorInvSqrtv4, fadev2, perlinKernel]

/-- A gradient for every lattice point, with components between -1 and 1. -/
def gradHash : Definition :=
  let x := name "x"
  let k := name "k"
  let xx := select x 2 "x"
  let xy := select x 2 "y"
  let s := call "fract" [xx * xy * (xx + xy)]
  define "vec2" "gradHash" "vec2" "x"
    [declare "vec2" "k" (call "vec2" [0.3183099, 0.3678794]),
      .assignment x (x * k + select k 2 "yx"),
      .result (call "fract" [k * 16 * s] * 2 - 1)]

/-- Gradient noise with its derivatives. -/
def gradientKernel : Definition :=
  let p := name "p"
  let i := name "i"
  let f := name "f"
  let u := name "u"
  let du := name "du"
  let ga := name "ga"
  let gb := name "gb"
  let gc := name "gc"
  let gd := name "gd"
  let va := name "va"
  let vb := name "vb"
  let vc := name "vc"
  let vd := name "vd"
  let k := name "k"
  let ux := select u 2 "x"
  let uy := select u 2 "y"
  let corner (x y : Float32) : Node := call "vec2" [number x, number y]
  let value := va + ux * (vb - va) + uy * (vc - va) + ux * uy * k
  let blend := select u 2 "yx" * k + call "vec2" [vb, vc] - va
  let derivative :=
    ga + (gb - ga) * ux + (gc - ga) * uy + (ga - gb - gc + gd) * (ux * uy) + du * blend
  define "vec3" "gradient" "vec2" "p"
    [declare "vec2" "i" (call "floor" [p]),
      declare "vec2" "f" (call "fract" [p]),
      declare "vec2" "u" (f * f * (3 - f * 2)),
      declare "vec2" "du" (f * 6 * (1 - f)),
      declare "vec2" "ga" (call "gradHash" [i]),
      declare "vec2" "gb" (call "gradHash" [i + corner 1 0]),
      declare "vec2" "gc" (call "gradHash" [i + corner 0 1]),
      declare "vec2" "gd" (call "gradHash" [i + corner 1 1]),
      declare "float" "va" (call "dot" [ga, f]),
      declare "float" "vb" (call "dot" [gb, f - corner 1 0]),
      declare "float" "vc" (call "dot" [gc, f - corner 0 1]),
      declare "float" "vd" (call "dot" [gd, f - corner 1 1]),
      declare "float" "k" (va - vb - vc + vd),
      .result (call "vec3" [value, derivative])]

def gradient : List Definition := [gradHash, gradientKernel]

/-- Gradient noise on a triangular lattice. -/
def simplexKernel : Definition :=
  let v := name "v"
  let constants := name "C"
  let i := name "i"
  let x0 := name "x0"
  let i1 := name "i1"
  let x12 := name "x12"
  let p := name "p"
  let m := name "m"
  let x := name "x"
  let h := name "h"
  let ox := name "ox"
  let a0 := name "a0"
  let g := name "g"
  let x12xy := select x12 4 "xy"
  let x12zw := select x12 4 "zw"
  define "float" "simplex" "vec2" "v"
    [declare "vec4" "C"
        (call "vec4" [0.211324865405187, 0.366025403784439, number (-0.577350269189626),
          0.024390243902439]),
      declare "vec2" "i" (call "floor" [v + call "dot" [v, select constants 4 "yy"]]),
      declare "vec2" "x0" (v - i + call "dot" [i, select constants 4 "xx"]),
      declare "vec2" "i1"
        (.conditional (.binary ">" (select x0 2 "x") (select x0 2 "y"))
          (call "vec2" [1, 0]) (call "vec2" [0, 1])),
      declare "vec4" "x12" (select x0 2 "xyxy" + select constants 4 "xxzz"),
      .assignment x12xy (x12xy - i1),
      .assignment i (call "mod289v2" [i]),
      declare "vec3" "p"
        (call "permutev3"
          [call "permutev3" [call "vec3" [0, select i1 2 "y", 1] + select i 2 "y"] +
            select i 2 "x" + call "vec3" [0, select i1 2 "x", 1]]),
      declare "vec3" "m"
        (call "max"
          [0.5 - call "vec3" [call "dot" [x0, x0], call "dot" [x12xy, x12xy],
            call "dot" [x12zw, x12zw]], 0]),
      .assignment m (m * m),
      .assignment m (m * m),
      declare "vec3" "x" (call "fract" [p * select constants 4 "www"] * 2 - 1),
      declare "vec3" "h" (call "abs" [x] - 0.5),
      declare "vec3" "ox" (call "floor" [x + 0.5]),
      declare "vec3" "a0" (x - ox),
      .assignment m (m * call "taylorInvSqrtv3" [a0 * a0 + h * h]),
      declare "vec3" "g" .absent,
      .assignment (select g 3 "x")
        (select a0 3 "x" * select x0 2 "x" + select h 3 "x" * select x0 2 "y"),
      .assignment (select g 3 "yz")
        (select a0 3 "yz" * select x12 4 "xz" + select h 3 "yz" * select x12 4 "yw"),
      .result (130 * call "dot" [m, g])]

def simplex : List Definition := [mod289v2, mod289v3, permutev3, taylorInvSqrtv3, simplexKernel]

/-- Three unrelated numbers for every position. -/
def whiteKernel : Definition :=
  let p := name "p"
  let a := name "a"
  let ax := select a 3 "x"
  let ay := select a 3 "y"
  let az := select a 3 "z"
  define "vec3" "white" "vec2" "p"
    [declare "vec3" "a"
        (call "fract" [select p 2 "xyx" * call "vec3" [123.34, 234.34, 345.65]]),
      .assignment a (a + call "dot" [a, a + 34.45]),
      .result (call "fract" [call "vec3" [ax * ay, ay * az, az * ax]])]

def white : List Definition := [whiteKernel]

end NoiseShader.Library
