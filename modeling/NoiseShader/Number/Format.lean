/-!
# Binary interchange formats

A binary format keeps a number in a word of three fields: a sign bit, a biased
exponent and a fraction.  `Format.decode` reads a word as an exact number
`significand * 2 ^ exponent`, and `Format.roundRatio` goes the other way: it
finds the word of the representable number nearest to a quotient of natural
numbers, a half going to the even significand.

Everything is computed with natural numbers, so no step of the rounding is
itself rounded.
-/

namespace NoiseShader.Number

/-- The exact meaning of a word of a binary format. -/
inductive Parts where
  | notANumber
  | infinite (negative : Bool)
  | finite (negative : Bool) (significand : Nat) (exponent : Int)
deriving DecidableEq, Repr

/-- The number `2 ^ n`. -/
@[inline]
def powerOfTwo (n : Nat) : Nat := Nat.pow 2 n

structure Format where
  fractionBits : Nat
  exponentBits : Nat
deriving DecidableEq, Repr

namespace Format

@[inline]
def binary32 : Format := ⟨23, 8⟩

@[inline]
def binary64 : Format := ⟨52, 11⟩

/-- The bit in front of the fraction of a number that is not subnormal. -/
@[inline]
def leadingBit (format : Format) : Nat := powerOfTwo format.fractionBits

/-- The exponent field of infinities and of what is not a number. -/
@[inline]
def topField (format : Format) : Nat := powerOfTwo format.exponentBits - 1

/-- The exponent of the last fraction bit of subnormal numbers. -/
@[inline]
def leastExponent (format : Format) : Int :=
  2 - (powerOfTwo (format.exponentBits - 1) : Nat) - (format.fractionBits : Nat)

@[inline]
def signWord (format : Format) (negative : Bool) : Nat :=
  if negative then powerOfTwo (format.fractionBits + format.exponentBits) else 0

@[inline]
def infinityWord (format : Format) (negative : Bool) : Nat :=
  format.signWord negative + format.topField * format.leadingBit

/-- The quiet word that stands for every result that is not a number. -/
@[inline]
def notANumberWord (format : Format) : Nat :=
  format.infinityWord false + powerOfTwo (format.fractionBits - 1)

@[inline]
def decode (format : Format) (word : Nat) : Parts :=
  let negative := (word >>> (format.fractionBits + format.exponentBits)) % 2 == 1
  let field := (word >>> format.fractionBits) % powerOfTwo format.exponentBits
  let fraction := word % format.leadingBit
  if field = format.topField then
    if fraction = 0 then .infinite negative else .notANumber
  else if field = 0 then
    .finite negative fraction format.leastExponent
  else
    .finite negative (format.leadingBit + fraction) (format.leastExponent + field - 1)

/-- The word of `significand * 2 ^ exponent`, where the significand has at most
one bit more than the fraction and the exponent is not below the least one.  A
significand that filled up while rounding moves to the next exponent by itself,
because the fields of the word are adjacent. -/
def encode (format : Format) (negative : Bool) (significand : Nat) (exponent : Int) : Nat :=
  if significand < format.leadingBit then
    format.signWord negative + significand
  else
    let field := (exponent - format.leastExponent).toNat + 1
    let magnitude := field * format.leadingBit + (significand - format.leadingBit)
    if magnitude < format.topField * format.leadingBit then
      format.signWord negative + magnitude
    else
      format.infinityWord negative

/-- A quotient rounded to the nearest natural number, a half to the even one. -/
def roundDiv (numerator denominator : Nat) : Nat :=
  let whole := numerator / denominator
  let rest := 2 * (numerator % denominator)
  if rest < denominator then whole
  else if denominator < rest then whole + 1
  else whole + whole % 2

/-- `numerator / (denominator * 2 ^ exponent)` as a pair of natural numbers. -/
def scaled (numerator denominator : Nat) (exponent : Int) : Nat × Nat :=
  if exponent < 0 then (numerator <<< (-exponent).toNat, denominator)
  else (numerator, denominator <<< exponent.toNat)

/-- The exponent at which a positive quotient has a significand of full length,
or the least exponent where the quotient is too small for that. -/
def ratioExponent (format : Format) (numerator denominator : Nat) : Int :=
  let guess := (numerator.log2 : Int) - denominator.log2 - format.fractionBits
  let (top, bottom) := scaled numerator denominator guess
  let exact := if top < bottom * format.leadingBit then guess - 1 else guess
  max exact format.leastExponent

/-- The word of the representable number nearest to a quotient. -/
def roundRatio (format : Format) (negative : Bool) (numerator denominator : Nat) : Nat :=
  if numerator = 0 then format.signWord negative
  else
    let exponent := format.ratioExponent numerator denominator
    let (top, bottom) := scaled numerator denominator exponent
    format.encode negative (roundDiv top bottom) exponent

/-- The word of the representable number nearest to `significand * 2 ^ exponent`. -/
def roundDyadic (format : Format) (negative : Bool) (significand : Nat) (exponent : Int) : Nat :=
  if exponent < 0 then format.roundRatio negative significand (powerOfTwo (-exponent).toNat)
  else format.roundRatio negative (significand <<< exponent.toNat) 1

end Format

end NoiseShader.Number
