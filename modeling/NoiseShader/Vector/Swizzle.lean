import NoiseShader.Number.Decimal
import NoiseShader.Text.Basic
import NoiseShader.Text.Quoted
import NoiseShader.Vector.Basic

/-!
# Swizzles

A swizzle selects one to four components of a vector by letters, all from one of
three sets.  A valid swizzle knows the number of components of the vectors it is
for, the pattern as written, and the index each letter stands for.  The unset
swizzle, for vectors of no components, stands for one that was never validated.

Patterns are measured and searched byte by byte.
-/

namespace NoiseShader

open Number (natText intText)
open Text (quoted quotedChar)

structure Swizzle where
  arity : Nat
  pattern : String
  indices : List Nat
deriving DecidableEq, Repr

/-- What is wrong with a pattern. -/
inductive PatternFault where
  | badArity
  | empty
  | tooLong
  | unknownLetter (letter : UInt8)
  | mixedSets (letter : UInt8)
  | outOfRange (letter : UInt8)
deriving DecidableEq, Repr

/-- A pattern that was refused for vectors of `arity` components. -/
structure SwizzleError where
  fault : PatternFault
  arity : Int
  pattern : String
deriving DecidableEq, Repr

/-- A swizzle applied to a vector it was not validated for. -/
inductive SwizzleMisuse where
  | unset
  | wrongArity (pattern : String) (arity applied : Nat)
  | wrongLength (pattern : String) (length wanted : Nat)
deriving DecidableEq, Repr

def byteChar (b : UInt8) : Char := Char.ofNat b.toNat

def SwizzleError.message (error : SwizzleError) : String :=
  let pattern := quoted error.pattern
  match error.fault with
  | .badArity => "swizzle source arity must be 2, 3 or 4, got " ++ intText error.arity
  | .empty => "empty swizzle pattern"
  | .tooLong => "swizzle pattern " ++ pattern ++ " longer than 4 components"
  | .unknownLetter letter =>
    "invalid swizzle component " ++ quotedChar (byteChar letter) ++ " in " ++ pattern
  | .mixedSets letter =>
    "swizzle " ++ pattern ++ " mixes component sets or has invalid component " ++
      quotedChar (byteChar letter)
  | .outOfRange letter =>
    "swizzle " ++ pattern ++ " component " ++ quotedChar (byteChar letter) ++
      " out of range for vec" ++ intText error.arity

def SwizzleMisuse.message : SwizzleMisuse → String
  | .unset => "use of zero value Swizzle"
  | .wrongArity pattern arity applied =>
    "swizzle " ++ quoted pattern ++ " built for vec" ++ natText arity ++ " applied to vec" ++
      natText applied
  | .wrongLength pattern length wanted =>
    "swizzle " ++ quoted pattern ++ " yields " ++ natText length ++ " components, not " ++
      natText wanted

namespace Swizzle

/-- The letters of each set, in component order. -/
def letterSets : List (List UInt8) := ["xyzw", "rgba", "stpq"].map Text.bytes

def unset : Swizzle := ⟨0, "", []⟩

def length (s : Swizzle) : Nat := s.pattern.utf8ByteSize

/-- The indices of letters in a set, for vectors of `arity` components. -/
def indicesIn (arity : Int) (letters : List UInt8) :
    List UInt8 → Except PatternFault (List Nat)
  | [] => .ok []
  | letter :: rest =>
    match letters.idxOf? letter with
    | none => .error (.mixedSets letter)
    | some index =>
      if arity ≤ (index : Int) then .error (.outOfRange letter)
      else (indicesIn arity letters rest).map (index :: ·)

/-- The components that a pattern selects from vectors of `arity` components.  The
pattern may be any bytes, and the first one decides which set the others belong
to. -/
def indicesOf (arity : Int) (pattern : List UInt8) : Except PatternFault (List Nat) :=
  if arity < 2 ∨ 4 < arity then .error .badArity
  else
    match pattern with
    | [] => .error .empty
    | first :: rest =>
      if 4 < (first :: rest).length then .error .tooLong
      else
        match letterSets.find? (·.contains first) with
        | none => .error (.unknownLetter first)
        | some letters => indicesIn arity letters (first :: rest)

/-- The swizzle of a pattern for vectors of `arity` components. -/
def ofPattern (arity : Int) (pattern : String) : Except SwizzleError Swizzle :=
  match indicesOf arity (Text.bytes pattern) with
  | .error fault => .error ⟨fault, arity, pattern⟩
  | .ok indices => .ok ⟨arity.toNat, pattern, indices⟩

/-- The selected components of a vector, which must be `wanted` many. -/
def apply {V : Type → Type} [Components V] {α : Type} (s : Swizzle) (v : V α) (wanted : Nat) :
    Except SwizzleMisuse (List α) :=
  if s.arity = 0 then .error .unset
  else if Components.arity V ≠ s.arity then
    .error (.wrongArity s.pattern s.arity (Components.arity V))
  else if wanted ≠ s.length then .error (.wrongLength s.pattern s.length wanted)
  else .ok (s.indices.filterMap ((Components.toList v)[·]?))

end Swizzle

end NoiseShader
