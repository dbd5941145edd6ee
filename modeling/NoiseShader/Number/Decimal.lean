import NoiseShader.Number.Format

/-!
# Decimal text of numbers

A binary number lies in an interval of reals that all round to it.  Its shortest
decimal is taken on the coarsest decimal grid that has a point in that interval;
of two points the nearer one is taken, and of two equally near ones the even one.
No digit of such a decimal can be left out without reading back as another number.

The grids are tried from coarse to fine.  Only the two grid points around the
number itself can be the nearest ones inside the interval, so two are tested on
each grid, by integer arithmetic.
-/

namespace NoiseShader.Number

/-- The number `10 ^ n`. -/
def powerOfTen (n : Nat) : Nat := Nat.pow 10 n

def natText (n : Nat) : String := String.ofList (Nat.toDigits 10 n)

def intText (n : Int) : String :=
  if n < 0 then "-" ++ natText n.natAbs else natText n.natAbs

/-- The number `significand * 10 ^ exponent`. -/
structure Decimal where
  significand : Nat
  exponent : Int
deriving DecidableEq, Repr

namespace Decimal

/-- The decimal in positional notation, without an exponent and without a point
where it is a whole number. -/
def positional (d : Decimal) : String :=
  let digits := Nat.toDigits 10 d.significand
  if 0 ≤ d.exponent then
    String.ofList (digits ++ List.replicate d.exponent.toNat '0')
  else
    let places := (-d.exponent).toNat
    if places < digits.length then
      let whole := digits.length - places
      String.ofList (digits.take whole ++ '.' :: digits.drop whole)
    else
      String.ofList ('0' :: '.' :: List.replicate (places - digits.length) '0' ++ digits)

/-- The decimal in positional notation where its magnitude is between `10 ^ (-4)`
and `10 ^ 6`, and with an exponent of at least two digits otherwise. -/
def general (d : Decimal) : String :=
  let digits := Nat.toDigits 10 d.significand
  let magnitude := d.exponent + digits.length - 1
  if d.significand = 0 ∨ (-4 ≤ magnitude ∧ magnitude < 6) then d.positional
  else
    let tail := if digits.length = 1 then [] else '.' :: digits.drop 1
    let exponent := natText magnitude.natAbs
    String.ofList (digits.take 1 ++ tail) ++ (if magnitude < 0 then "e-" else "e+") ++
      (if exponent.length < 2 then "0" ++ exponent else exponent)

end Decimal

/-- The reals between `lower / scale` and `upper / scale` around `value / scale`.
The two ends belong to the interval when `closed` is set. -/
structure RoundingInterval where
  lower : Nat
  value : Nat
  upper : Nat
  scale : Nat
  closed : Bool

namespace RoundingInterval

/-- The interval of reals that round to `significand * 2 ^ exponent`.  Above the
number the next one is a unit away; below it only half a unit when the number is
the first one of a range of exponents. -/
def of (significand : Nat) (exponent : Int) (firstOfRange : Bool) : RoundingInterval :=
  let factor := powerOfTwo (exponent - 2).toNat
  { lower := (4 * significand - if firstOfRange then 1 else 2) * factor
    value := 4 * significand * factor
    upper := (4 * significand + 2) * factor
    scale := powerOfTwo (2 - exponent).toNat
    closed := significand % 2 == 0 }

/-- Whether the interval holds the grid point `numerator / denominator`. -/
def holds (interval : RoundingInterval) (numerator denominator : Nat) : Bool :=
  let point := numerator * interval.scale
  let lower := interval.lower * denominator
  let upper := interval.upper * denominator
  if interval.closed then lower ≤ point && point ≤ upper
  else lower < point && point < upper

/-- The point of the grid of multiples of `10 ^ exponent` that is in the interval
and nearest to its value. -/
def nearestOn? (interval : RoundingInterval) (exponent : Int) : Option Nat :=
  let step := powerOfTen exponent.toNat
  let denominator := powerOfTen (-exponent).toNat
  let value := interval.value * denominator
  let unit := step * interval.scale
  let below := value / unit
  let above := below + 1
  match interval.holds (below * step) denominator, interval.holds (above * step) denominator with
  | true, true =>
    let gapBelow := value - below * unit
    let gapAbove := above * unit - value
    if gapBelow < gapAbove then some below
    else if gapAbove < gapBelow then some above
    else some (below + below % 2)
  | true, false => some below
  | false, true => some above
  | false, false => none

/-- The first hit on the grids from `exponent` down. -/
def shortestFrom (interval : RoundingInterval) : (grids : Nat) → (exponent : Int) → Decimal
  | 0, exponent => ⟨0, exponent⟩
  | grids + 1, exponent =>
    match interval.nearestOn? exponent with
    | some significand => ⟨significand, exponent⟩
    | none => interval.shortestFrom grids (exponent - 1)

/-- An exponent whose power of ten is above the value of the interval. -/
def coarseExponent (interval : RoundingInterval) : Int :=
  (((interval.value.log2 : Int) - interval.scale.log2 + 1) * 30103) / 100000 + 1

/-- At most nineteen grids lie between one that is too coarse and one with a step
below the width of the interval, for double precision as well. -/
def shortest (interval : RoundingInterval) : Decimal :=
  interval.shortestFrom 24 interval.coarseExponent

end RoundingInterval

/-- The shortest decimal of the number `significand * 2 ^ exponent` of a format. -/
def Format.shortest (format : Format) (significand : Nat) (exponent : Int) : Decimal :=
  if significand = 0 then ⟨0, 0⟩
  else
    let firstOfRange :=
      significand == format.leadingBit && decide (format.leastExponent < exponent)
    (RoundingInterval.of significand exponent firstOfRange).shortest

end NoiseShader.Number
