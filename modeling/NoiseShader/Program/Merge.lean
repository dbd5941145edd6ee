import NoiseShader.Program.Fingerprint
import NoiseShader.Syntax.Render

/-!
# Merging lists of definitions

Lists of definitions are joined into one in which no definition stands twice.
Two definitions count as the same when the fingerprints of their names and of
their source texts agree; a second definition with a known name and another
source is refused.
-/

namespace NoiseShader

open Text (quoted)

inductive MergeError where
  | unnamed
  | conflict (name source : String)
  | unwritable (cause : RenderError)
deriving DecidableEq, Repr

def MergeError.message : MergeError → String
  | .unnamed => "definition with empty name"
  | .conflict name source => "conflicting definitions of " ++ quoted name ++ ":\n" ++ source
  | .unwritable cause => cause.message

/-- The definitions merged so far, with the fingerprint of the source under the
fingerprint of the name. -/
structure Merge where
  definitions : List Definition
  known : List (UInt64 × UInt64)

namespace Merge

def empty : Merge := ⟨[], []⟩

def insert (merge : Merge) (definition : Definition) : Except MergeError Merge :=
  if definition.name = "" then .error .unnamed
  else
    match definition.toNode.render with
    | .error cause => .error (.unwritable cause)
    | .ok source =>
      let nameMark := Fingerprint.ofText 0 definition.name
      let sourceMark := Fingerprint.ofText nameMark source
      match merge.known.lookup nameMark with
      | some knownMark =>
        if knownMark = sourceMark then .ok merge else .error (.conflict definition.name source)
      | none =>
        .ok ⟨merge.definitions ++ [definition], merge.known ++ [(nameMark, sourceMark)]⟩

end Merge

/-- The definitions of all lists in order, each once. -/
def mergeDefinitions (lists : List (List Definition)) : Except MergeError (List Definition) := do
  let merge ← lists.flatten.foldlM Merge.insert Merge.empty
  return merge.definitions

end NoiseShader
