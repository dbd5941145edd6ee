import NoiseShader.Program.Basic
import NoiseShader.Program.Global

/-!
# Shader stages

A program becomes a complete shader in one of two ways.  As a compute shader it
evaluates its entry, a function from a position to numbers, over a buffer of
positions.  As a fragment shader its entry is the main function, and every member
of its environment must be declared as a global.

A shader is handed to a writer as a whole, after all checks.
-/

namespace NoiseShader

open Number (natText intText)
open Text (quoted)

/-- What a writer leaves behind when it was given bytes: how many it took, why not all
of them, and the place they went to. -/
structure Delivery (ε ω : Type) where
  count : Int
  outcome : Except ε Unit
  sink : ω

structure Writer (ω : Type) where
  write : List UInt8 → ω → Delivery String ω

/-- Writes a text. -/
def Writer.deliver {ε ω : Type} (writer : Writer ω) (failure : String → ε) (text : String)
    (sink : ω) : Delivery ε ω :=
  let delivery := writer.write (Text.bytes text) sink
  ⟨delivery.count, delivery.outcome.mapError failure, delivery.sink⟩

def versionDirective : String := "#version 430\n"

inductive EntryError where
  | notAFunction (typeName : String)
  | badReturnType (name returnType : String)
  | badParameters (name : String)
deriving DecidableEq, Repr

def EntryError.message : EntryError → String
  | .notAFunction typeName => "program main is " ++ typeName ++ ", not a function definition"
  | .badReturnType name returnType =>
    "kernel " ++ quoted name ++ " return type " ++ quoted returnType ++
      " not a float or float vector"
  | .badParameters name => "kernel " ++ quoted name ++ " must receive a single vec2 parameter"

/-- The number of floats in a value of a type, if it is made of floats only. -/
def floatCount? : String → Option Nat
  | "float" => some 1
  | "vec2" => some 2
  | "vec3" => some 3
  | "vec4" => some 4
  | _ => none

/-- The entry of a program as a function from a position to a number of floats. -/
def Program.kernelEntry (program : Program) : Except EntryError (Definition × Nat) :=
  match program.main.asFunction? with
  | none => .error (.notAFunction program.main.typeName)
  | some entry =>
    match floatCount? entry.returnType with
    | none => .error (.badReturnType entry.name entry.returnType)
    | some components =>
      match entry.parameters with
      | [parameter] =>
        if parameter.type = "vec2" then .ok (entry, components)
        else .error (.badParameters entry.name)
      | _ => .error (.badParameters entry.name)

inductive WorkgroupError where
  | unsupportedShape
  | emptyGroup
deriving DecidableEq, Repr

def WorkgroupError.message : WorkgroupError → String
  | .unsupportedShape => "unsupported"
  | .emptyGroup => "zero or negative X invocation size"

/-- The number of invocations in a work group, all along one axis. -/
structure Workgroup where
  width : Int
deriving DecidableEq, Repr

namespace Workgroup

def default : Workgroup := ⟨32⟩

def ofShape (x y z : Int) : Except WorkgroupError Workgroup :=
  if y ≠ 1 ∨ z ≠ 1 then .error .unsupportedShape
  else if x < 1 then .error .emptyGroup
  else .ok ⟨x⟩

/-- The number of invocations along each axis. -/
def shape (group : Workgroup) : Int × Int × Int := (group.width, 1, 1)

end Workgroup

inductive ComputeError where
  | entry (cause : EntryError)
  | unwritable (cause : RenderError)
  | writing (reason : String)
deriving DecidableEq, Repr

def ComputeError.message : ComputeError → String
  | .entry cause => cause.message
  | .unwritable cause => cause.message
  | .writing reason => reason

/-- The statements that store the components of a result. -/
def storeStatements (components : Nat) : String :=
  if components = 1 then "\tvbo_results[idx] = r;\n"
  else
    String.join ((["x", "y", "z", "w"].take components).mapIdx fun position letter =>
      "\tvbo_results[idx*" ++ natText components ++ "+" ++ natText position ++ "] = r." ++
        letter ++ ";\n")

/-- The compute shader of a program and the number of floats per position. -/
def Program.computeShader (program : Program) (group : Workgroup) :
    Except ComputeError (String × Nat) :=
  match program.kernelEntry with
  | .error cause => .error (.entry cause)
  | .ok (entry, components) =>
    match program.render with
    | .error cause => .error (.unwritable cause)
    | .ok source =>
      .ok ("#shader compute\n" ++ versionDirective ++ source ++
        "\n\nlayout(local_size_x = " ++ intText group.width ++
        ", local_size_y = 1, local_size_z = 1) in;\n\n" ++
        "// Input: 2D positions at which to evaluate kernel.\n" ++
        "layout(std430, binding = 0) buffer PositionsBuffer \x7b\n" ++
        "\tvec2 vbo_positions[];\n" ++
        "\x7d;\n\n" ++
        "// Output: Kernel results, " ++ natText components ++ " float(s) per position.\n" ++
        "layout(std430, binding = 1) buffer ResultsBuffer \x7b\n" ++
        "\tfloat vbo_results[];\n" ++
        "\x7d;\n\n" ++
        "void main() \x7b\n" ++
        "\tint idx = int( gl_GlobalInvocationID.x );\n" ++
        "\tif (idx >= vbo_positions.length()) \x7b\n" ++
        "\t\treturn;\n" ++
        "\t\x7d\n" ++
        "\t" ++ entry.returnType ++ " r = " ++ entry.name ++ "(vbo_positions[idx]);\n" ++
        storeStatements components ++ "\x7d\n", components)

/-- Writes the compute shader of a program.  The number of floats per position is zero
if there is no shader. -/
def Program.writeCompute {ω : Type} (program : Program) (group : Workgroup) (writer : Writer ω)
    (sink : ω) : Delivery ComputeError ω × Nat :=
  match program.computeShader group with
  | .error cause => (⟨0, .error cause, sink⟩, 0)
  | .ok (text, components) => (writer.deliver .writing text sink, components)

inductive FragmentError where
  | badMain
  | incompleteGlobal
  | undeclaredMember (member environment : String)
  | unwritable (cause : RenderError)
  | writing (reason : String)
deriving DecidableEq, Repr

def FragmentError.message : FragmentError → String
  | .badMain => "fragment program main must be a void main() function definition"
  | .incompleteGlobal => "global declaration requires name and type"
  | .undeclaredMember member environment =>
    "environment member " ++ quoted member ++ " of " ++ quoted environment ++
      " has no global declaration"
  | .unwritable cause => cause.message
  | .writing reason => reason

/-- Whether a node is a function that a fragment shader can start with. -/
def Node.isFragmentMain (node : Node) : Bool :=
  match node.asFunction? with
  | some f => f.name == "main" && f.returnType == "void" && f.parameters.isEmpty
  | none => false

/-- The fragment shader of a program with the given globals. -/
def Program.fragmentShader (program : Program) (globals : List Global) :
    Except FragmentError String :=
  if !program.main.isFragmentMain then .error .badMain
  else if globals.any fun g => g.name == "" || g.type == "" then .error .incompleteGlobal
  else
    match program.environmentMembers.find? fun member => !globals.any (·.name == member) with
    | some member => .error (.undeclaredMember member program.environment)
    | none =>
      match program.render with
      | .error cause => .error (.unwritable cause)
      | .ok source =>
        .ok (versionDirective ++ String.join (globals.map Global.declaration) ++ "\n" ++ source ++
          "\n")

/-- Writes the fragment shader of a program. -/
def Program.writeFragment {ω : Type} (program : Program) (globals : List Global)
    (writer : Writer ω) (sink : ω) : Delivery FragmentError ω :=
  match program.fragmentShader globals with
  | .error cause => ⟨0, .error cause, sink⟩
  | .ok text => writer.deliver .writing text sink

end NoiseShader
