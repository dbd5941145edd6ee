import NoiseShader.Number.Format

/-!
# Functions of single precision numbers

The operations `+`, `-`, `*`, `/`, `sqrt` and the order are those of `Float32`,
each correctly rounded.  This module adds the functions whose value is exact and
is therefore computed on the parts of a number: the floor, the nearest integer,
the remainder and the narrowing of a double precision number.

There are two pairs of extremum functions.  `minimum` and `maximum` treat zeros
as ordered by their sign and let a number that is not a number win;
`lesser` and `greater` only compare, and keep their first argument whenever the
comparison fails.
-/

namespace NoiseShader.Number.Binary32

def parts (x : Float32) : Parts := Format.binary32.decode x.toBits.toNat

def ofWord (word : Nat) : Float32 := Float32.ofBits (UInt32.ofNat word)

def notANumber : Float32 := ofWord Format.binary32.notANumberWord

/-- The sign bit of a number; what is not a number has no sign. -/
def isNegative (x : Float32) : Bool := x.toBits >>> 31 == 1

def isZero (x : Float32) : Bool := x == 0

def isFinite (x : Float32) : Bool := x.isFinite

def isInfinite (x : Float32) (negative : Bool) : Bool := x.isInf && isNegative x == negative

def isNotANumber (x : Float32) : Bool := x.isNaN

/-- The double precision number rounded to single precision. -/
def ofDouble (x : Float) : Float32 :=
  match Format.binary64.decode x.toBits.toNat with
  | .notANumber => notANumber
  | .infinite negative => ofWord (Format.binary32.infinityWord negative)
  | .finite negative significand exponent =>
    ofWord (Format.binary32.roundDyadic negative significand exponent)

/-- The largest integer not above `x`; numbers that are integers already, zeros
of either sign among them, are returned as they are. -/
def floor (x : Float32) : Float32 :=
  match parts x with
  | .finite negative significand exponent =>
    if significand = 0 ∨ 0 ≤ exponent then x
    else
      let signed : Int := if negative then -significand else significand
      Float32.ofInt (signed >>> (-exponent).toNat)
  | _ => x

/-- The nearest integer, a half going away from zero.  It keeps the sign of `x`,
also where it is zero. -/
def round (x : Float32) : Float32 :=
  match parts x with
  | .finite negative significand exponent =>
    if significand = 0 ∨ 0 ≤ exponent then x
    else
      let halves := significand >>> ((-exponent).toNat - 1)
      let whole := Float32.ofNat ((halves + 1) / 2)
      if negative then -whole else whole
  | _ => x

/-- The remainder of the division of `x` by `y` truncated toward zero.  It is
exact and has the sign of `x`. -/
def remainder (x y : Float32) : Float32 :=
  match parts x, parts y with
  | .finite negative significand exponent, .finite _ divisor divisorExponent =>
    if divisor = 0 then notANumber
    else
      let least := min exponent divisorExponent
      let rest := (significand <<< (exponent - least).toNat) %
        (divisor <<< (divisorExponent - least).toNat)
      ofWord (Format.binary32.roundDyadic negative rest least)
  | .finite _ _ _, .infinite _ => x
  | _, _ => notANumber

def minimum (x y : Float32) : Float32 :=
  if isInfinite x true then x
  else if isInfinite y true then y
  else if isNotANumber x ∨ isNotANumber y then notANumber
  else if isZero x ∧ isZero y then if isNegative x then x else y
  else if x < y then x else y

def maximum (x y : Float32) : Float32 :=
  if isInfinite x false then x
  else if isInfinite y false then y
  else if isNotANumber x ∨ isNotANumber y then notANumber
  else if isZero x ∧ isZero y then if isNegative x then y else x
  else if y < x then x else y

def lesser (x y : Float32) : Float32 := if y < x then y else x

def greater (x y : Float32) : Float32 := if x < y then y else x

def clamp (x low high : Float32) : Float32 := minimum high (maximum x low)

/-- The distance above the floor. -/
def fraction (x : Float32) : Float32 := x - floor x

/-- The weighted mean of `x` and `y`. -/
def mix (x y weight : Float32) : Float32 := x * (1 - weight) + y * weight

/-- The remainder of the floored division of `x` by `modulus`, as the rounded
operations give it. -/
def modulo (x modulus : Float32) : Float32 := x - modulus * floor (x / modulus)

/-- Zero below the edge and one from the edge on. -/
def step (edge x : Float32) : Float32 := if x < edge then 0 else 1

/-- The whole part of a number as a byte; what is not a number gives zero. -/
def toByte (x : Float32) : UInt8 :=
  match parts x with
  | .finite false significand exponent =>
    if 0 ≤ exponent then UInt8.ofNat (significand <<< exponent.toNat)
    else UInt8.ofNat (significand >>> (-exponent).toNat)
  | _ => 0

end NoiseShader.Number.Binary32
