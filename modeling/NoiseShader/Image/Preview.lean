import NoiseShader.Kernel.Registry
import NoiseShader.Program.Stage

/-!
# Preview programs

The preview of a kernel is a fragment program that shows the kernel around a
centre.  The viewport, the scale and the centre are members of its environment.
Kernels with one component are shown from -1 to 1, all others from 0 to 1; of two
components only the first is shown.
-/

namespace NoiseShader.Preview

open Library (name number call select declare)

inductive Error where
  | kernel (cause : NoiseKernel.Error)
  | unsupportedComponents (name : String) (components : Int)
  | unknownNode (cause : UnknownNode)
  | program (cause : ProgramError)
deriving DecidableEq, Repr

def Error.message : Error → String
  | .kernel cause => cause.message
  | .unsupportedComponents name components =>
    "kernel " ++ Text.quoted name ++ " returns unsupported amount of components " ++
      Number.intText components
  | .unknownNode cause => cause.message
  | .program cause => cause.message

def environment : String := "view"

def globals : List Global :=
  [⟨"uniform", "vec2", "uResolution"⟩, ⟨"uniform", "float", "uScale"⟩,
    ⟨"uniform", "vec2", "uOffset"⟩, ⟨"out", "vec4", "fragColor"⟩]

def member (field : String) : Node := .member (name environment) field

/-- The type of the value of a kernel and the colour that shows it. -/
def shading (components : Int) : Option (String × Node) :=
  let v := name "v"
  match components with
  | 1 => some ("float", call "vec4" [call "vec3" [call "clamp" [(v + 1) * 0.5, 0, 1]], 1])
  | 2 => some ("vec2", call "vec4" [call "vec3" [call "clamp" [select v 2 "x", 0, 1]], 1])
  | 3 => some ("vec3", call "vec4" [call "clamp" [v, 0, 1], 1])
  | 4 => some ("vec4", call "clamp" [v, 0, 1])
  | _ => none

/-- The position that a fragment shows. -/
def position : Node :=
  (select (name "gl_FragCoord") 4 "xy" - member "uResolution" * 0.5) * member "uScale" +
    member "uOffset"

def mainFunction (kernel type : String) (color : Node) : Definition :=
  ⟨"main", "void", [],
    [.block environment
      [declare "vec2" "p" position,
        declare type "v" (call kernel [name "p"]),
        .assignment (name "fragColor") color]]⟩

/-- The preview program of a kernel. -/
def program (kernel : String) : Except Error Program := do
  let found ← (NoiseKernel.find kernel).mapError .kernel
  let some (type, color) := shading found.components
    | throw (.unsupportedComponents kernel found.components)
  let main := (mainFunction found.name type color).toNode
  let definitions ← (Library.referenced [main]).mapError .unknownNode
  (Program.create main definitions).mapError .program

end NoiseShader.Preview
