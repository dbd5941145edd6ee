import NoiseShader.Number.Decimal

/-!
# Elapsed time

A duration is counted in nanoseconds.  Below one second it is written in the
largest of milli-, micro- and nanoseconds that it reaches, otherwise in hours,
minutes and seconds.
-/

namespace NoiseShader

open Number (natText powerOfTen)

structure Elapsed where
  nanoseconds : Nat
deriving DecidableEq, Repr

namespace Elapsed

def nanosecondsPerMinute : Nat := 60000000000

/-- The quotient of a number by a power of ten, without zeros at the end. -/
def decimalText (value places : Nat) : String :=
  let digits := (natText (value % powerOfTen places)).toList
  let padded := List.replicate (places - digits.length) '0' ++ digits
  let kept := (padded.reverse.dropWhile (· == '0')).reverse
  let whole := natText (value / powerOfTen places)
  if kept.isEmpty then whole else whole ++ "." ++ String.ofList kept

def text (elapsed : Elapsed) : String :=
  let n := elapsed.nanoseconds
  if n = 0 then "0s"
  else if n < 1000 then natText n ++ "ns"
  else if n < 1000000 then decimalText n 3 ++ "µs"
  else if n < 1000000000 then decimalText n 6 ++ "ms"
  else
    let minutes := n / nanosecondsPerMinute
    let seconds := decimalText (n % nanosecondsPerMinute) 9 ++ "s"
    if minutes = 0 then seconds
    else if minutes < 60 then natText minutes ++ "m" ++ seconds
    else natText (minutes / 60) ++ "h" ++ natText (minutes % 60) ++ "m" ++ seconds

end Elapsed

end NoiseShader
