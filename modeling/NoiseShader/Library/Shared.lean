import NoiseShader.Syntax.Render

/-!
# Shared definitions of the shader library

The arithmetic operators and the numerals of this module build trees, so that a
definition of the library reads like the source it stands for.  The helpers are
functions that several noise kernels call; each has a name of its own for every
type it is used at.
-/

namespace NoiseShader.Library

instance : Add Node := ⟨.binary "+"⟩

instance : Sub Node := ⟨.binary "-"⟩

instance : Mul Node := ⟨.binary "*"⟩

instance : Div Node := ⟨.binary "/"⟩

def number (value : Float32) : Node := .literal (.float value)

instance (n : Nat) : OfNat Node n := ⟨number (OfNat.ofNat n)⟩

instance : OfScientific Node := ⟨fun mantissa sign exponent =>
  number (OfScientific.ofScientific mantissa sign exponent)⟩

def name (text : String) : Node := .identifier text

def call (function : String) (arguments : List Node) : Node := .call function arguments

/-- The components of a vector of `arity` components named by a pattern. -/
def select (vector : Node) (arity : Nat) (pattern : String) : Node :=
  .swizzle vector (((Swizzle.ofPattern arity pattern).toOption).getD .unset)

def declare (type name : String) (value : Node) : Node := .declaration type name value

/-- A function with one parameter. -/
def define (returnType name parameterType parameter : String) (body : List Node) : Definition :=
  ⟨name, returnType, [⟨parameterType, parameter⟩], body⟩

/-- The remainder of the floored division by a number. -/
def reduction (type functionName : String) (modulus : Float32) : Definition :=
  let x := name "x"
  define type functionName type "x"
    [.result (x - call "floor" [x / number modulus] * number modulus)]

def mod289v2 : Definition := reduction "vec2" "mod289v2" 289

def mod289v3 : Definition := reduction "vec3" "mod289v3" 289

def mod289v4 : Definition := reduction "vec4" "mod289v4" 289

def mod7v3 : Definition := reduction "vec3" "mod7v3" 7

/-- The polynomial hash `(34 x + 10) x`, reduced. -/
def permutation (type functionName reduce : String) : Definition :=
  let x := name "x"
  define type functionName type "x" [.result (call reduce [(x * 34 + 10) * x])]

def permutev3 : Definition := permutation "vec3" "permutev3" "mod289v3"

def permutev4 : Definition := permutation "vec4" "permutev4" "mod289v4"

/-- The first two terms of the inverse square root around 0.7. -/
def inverseSqrt (type functionName : String) : Definition :=
  define type functionName type "r" [.result (1.79284291400159 - name "r" * 0.85373472095314)]

def taylorInvSqrtv3 : Definition := inverseSqrt "vec3" "taylorInvSqrtv3"

def taylorInvSqrtv4 : Definition := inverseSqrt "vec4" "taylorInvSqrtv4"

/-- The quintic interpolant `t ^ 3 (t (6 t - 15) + 10)`. -/
def fadev2 : Definition :=
  let t := name "t"
  define "vec2" "fadev2" "vec2" "t" [.result (t * t * t * (t * (t * 6 - 15) + 10))]

end NoiseShader.Library
