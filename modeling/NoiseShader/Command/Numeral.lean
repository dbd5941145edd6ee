import NoiseShader.Number.Format

/-!
# Numerals on the command line

Integers are written with an optional sign in decimal, or in binary, octal or
hexadecimal after one of the prefixes `0b`, `0o`, `0x` and `0`, and must fit in
64 bits.  Real numbers are written in decimal or, with an exponent of two, in
hexadecimal; they are rounded to double precision, and a number beyond the
largest one is out of range.  Underscores may stand between digits.
-/

namespace NoiseShader.Numeral

open Number (Format powerOfTwo)

inductive Error where
  | malformed
  | outOfRange
deriving DecidableEq, Repr

def Error.message : Error → String
  | .malformed => "parse error"
  | .outOfRange => "value out of range"

def digit? (c : Char) : Option Nat :=
  if '0' ≤ c ∧ c ≤ '9' then some (c.toNat - '0'.toNat)
  else if 'a' ≤ c ∧ c ≤ 'z' then some (c.toNat - 'a'.toNat + 10)
  else if 'A' ≤ c ∧ c ≤ 'Z' then some (c.toNat - 'A'.toNat + 10)
  else none

/-- Splits off a sign; the answer tells whether it was a minus. -/
def splitSign : List Char → Bool × List Char
  | '+' :: rest => (false, rest)
  | '-' :: rest => (true, rest)
  | text => (false, text)

/-- What stood before the place where an underscore may follow. -/
inductive Before where
  | start
  | digit
  | underscore
  | other
deriving DecidableEq, Repr

/-- Whether every underscore stands between digits. -/
def separatesDigits (hexadecimal : Bool) : Before → List Char → Bool
  | before, [] => before != .underscore
  | before, c :: rest =>
    match digit? c with
    | some value =>
      if value < 10 || (hexadecimal && value < 16) then separatesDigits hexadecimal .digit rest
      else before != .underscore && separatesDigits hexadecimal .other rest
    | none =>
      if c == '_' then before == .digit && separatesDigits hexadecimal .underscore rest
      else before != .underscore && separatesDigits hexadecimal .other rest

/-- Whether the underscores of a numeral are in order; a prefix for the base
counts as a digit. -/
def underscoresInOrder (text : List Char) : Bool :=
  match (splitSign text).2 with
  | '0' :: c :: rest =>
    if c.toLower ∈ ['b', 'o', 'x'] then separatesDigits (c.toLower == 'x') .digit rest
    else separatesDigits false .start ('0' :: c :: rest)
  | unsigned => separatesDigits false .start unsigned

def hasUnderscores (text : List Char) : Bool := text.contains '_'

/-- The value of digits after a number already read.  Exceeding 64 bits is noticed
at the digit that does it. -/
def digitsValue (base : Nat) : (value : Nat) → List Char → Except Error Nat
  | value, [] => .ok value
  | value, c :: rest =>
    if c = '_' then digitsValue base value rest
    else
      match digit? c with
      | none => .error .malformed
      | some digit =>
        if base ≤ digit then .error .malformed
        else if powerOfTwo 64 ≤ value * base + digit then .error .outOfRange
        else digitsValue base (value * base + digit) rest

/-- The base of an unsigned integer and its digits. -/
def splitBase : List Char → Nat × List Char
  | '0' :: c :: d :: rest =>
    match c.toLower with
    | 'b' => (2, d :: rest)
    | 'o' => (8, d :: rest)
    | 'x' => (16, d :: rest)
    | _ => (8, c :: d :: rest)
  | '0' :: rest => (8, rest)
  | text => (10, text)

def readUnsigned (text : List Char) : Except Error Nat := do
  if text.isEmpty then throw .malformed
  let (base, digits) := splitBase text
  let value ← digitsValue base 0 digits
  if hasUnderscores text && !underscoresInOrder text then throw .malformed
  return value

/-- The integer written as `text`. -/
def readInteger (text : String) : Except Error Int := do
  let (negative, unsigned) := splitSign text.toList
  let value ← readUnsigned unsigned
  if negative then
    if powerOfTwo 63 < value then throw .outOfRange
    return -(value : Int)
  else
    if powerOfTwo 63 ≤ value then throw .outOfRange
    return value

/-- The digits of a real number: their value without the point, and how many of
them follow the point. -/
structure Mantissa where
  value : Nat
  places : Nat
  seenPoint : Bool
  seenDigit : Bool

def Mantissa.start : Mantissa := ⟨0, 0, false, false⟩

/-- Reads digits, underscores and one point. -/
def readMantissa (base : Nat) : Mantissa → List Char → Mantissa × List Char
  | mantissa, [] => (mantissa, [])
  | mantissa, c :: rest =>
    if c = '_' then readMantissa base mantissa rest
    else if c = '.' then
      if mantissa.seenPoint then (mantissa, c :: rest)
      else readMantissa base { mantissa with seenPoint := true } rest
    else
      match digit? c with
      | none => (mantissa, c :: rest)
      | some digit =>
        if base ≤ digit then (mantissa, c :: rest)
        else
          readMantissa base
            { value := mantissa.value * base + digit
              places := if mantissa.seenPoint then mantissa.places + 1 else mantissa.places
              seenPoint := mantissa.seenPoint
              seenDigit := true } rest

/-- The value of the digits of an exponent, which stops growing beyond 10000. -/
def exponentValue : (value : Nat) → List Char → Except Error Nat
  | value, [] => .ok value
  | value, c :: rest =>
    if c = '_' then exponentValue value rest
    else if '0' ≤ c ∧ c ≤ '9' then
      exponentValue (if value < 10000 then value * 10 + (c.toNat - '0'.toNat) else value) rest
    else .error .malformed

/-- The exponent after its letter; it starts with a digit after the sign. -/
def readExponent (text : List Char) : Except Error Int := do
  let (negative, unsigned) := splitSign text
  match unsigned with
  | [] => throw .malformed
  | c :: rest =>
    if c = '_' then throw .malformed
    let value ← exponentValue 0 (c :: rest)
    return if negative then -(value : Int) else value

/-- The words for numbers that have no digits. -/
def special? (text : List Char) : Option Float :=
  let lower := text.map Char.toLower
  if lower = ['n', 'a', 'n'] then some (Float.ofBits (UInt64.ofNat Format.binary64.notANumberWord))
  else
    let (negative, word) := splitSign lower
    if word = ['i', 'n', 'f'] ∨ word = ['i', 'n', 'f', 'i', 'n', 'i', 't', 'y'] then
      some (Float.ofBits (UInt64.ofNat (Format.binary64.infinityWord negative)))
    else none

/-- The word of `value * base ^ exponent` in double precision. -/
def powerWord (negative : Bool) (value base : Nat) (exponent : Int) : Nat :=
  if exponent < 0 then Format.binary64.roundRatio negative value (Nat.pow base (-exponent).toNat)
  else Format.binary64.roundRatio negative (value * Nat.pow base exponent.toNat) 1

def checkedFloat (negative : Bool) (word : Nat) : Except Error Float :=
  if word = Format.binary64.infinityWord negative then .error .outOfRange
  else .ok (Float.ofBits (UInt64.ofNat word))

/-- The real number written as `text`. -/
def readReal (text : String) : Except Error Float := do
  let all := text.toList
  if let some value := special? all then return value
  let (negative, unsigned) := splitSign all
  let (hexadecimal, digits) :=
    match unsigned with
    | '0' :: c :: d :: rest => if c.toLower = 'x' then (true, d :: rest) else (false, unsigned)
    | _ => (false, unsigned)
  let (mantissa, rest) := readMantissa (if hexadecimal then 16 else 10) .start digits
  if !mantissa.seenDigit then throw .malformed
  let exponent ←
    match rest with
    | [] => if hexadecimal then throw .malformed else pure 0
    | c :: after =>
      if c.toLower = (if hexadecimal then 'p' else 'e') then readExponent after
      else throw .malformed
  if hasUnderscores all && !underscoresInOrder all then throw .malformed
  if hexadecimal then
    checkedFloat negative (powerWord negative mantissa.value 2 (exponent - 4 * mantissa.places))
  else
    checkedFloat negative (powerWord negative mantissa.value 10 (exponent - mantissa.places))

/-- The truth value written as `text`. -/
def readSwitch (text : String) : Except Error Bool :=
  if text ∈ ["1", "t", "T", "TRUE", "true", "True"] then .ok true
  else if text ∈ ["0", "f", "F", "FALSE", "false", "False"] then .ok false
  else .error .malformed

end NoiseShader.Numeral
