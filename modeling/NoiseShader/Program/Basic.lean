import NoiseShader.Program.Merge
import NoiseShader.Program.Reachable
import NoiseShader.Text.Basic

/-!
# Programs

A program is a list of function definitions and an entry tree.  The first named
block of the entry opens the environment of the program, and the environment is
flattened wherever the program is written.

Programs are made by `Program.create`, which sees to it that definitions have
distinct names and that no tree holds a reference.  The empty program has no
entry.
-/

namespace NoiseShader

open Number (natText)
open Text (quoted)

structure Program where
  definitions : List Definition
  main : Node

inductive ProgramError where
  | absentMain
  | unnamedDefinition (position : Nat)
  | duplicateDefinition (name : String)
  | unknownNode (cause : UnknownNode)
  | merge (cause : MergeError)
deriving DecidableEq, Repr

def ProgramError.message : ProgramError → String
  | .absentMain => "nil program main"
  | .unnamedDefinition position => "definition " ++ natText position ++ " has empty name"
  | .duplicateDefinition name => "duplicate definition of " ++ quoted name
  | .unknownNode cause => cause.message
  | .merge cause => cause.message

namespace Program

def empty : Program := ⟨[], .absent⟩

/-- Checks the names of definitions, from the one at `position` on, against the
names taken before. -/
def checkNames (taken : List String) :
    (position : Nat) → List Definition → Except ProgramError Unit
  | _, [] => .ok ()
  | position, definition :: rest =>
    if definition.name = "" then .error (.unnamedDefinition position)
    else if definition.name ∈ taken then .error (.duplicateDefinition definition.name)
    else checkNames (definition.name :: taken) (position + 1) rest

/-- Checks that definitions and entry hold no node of an unknown kind. -/
def checkNodes (definitions : List Definition) (main : Node) : Except ProgramError Unit :=
  match (definitions.map Definition.toNode ++ [main]).findSome? Node.unknown? with
  | some cause => .error (.unknownNode cause)
  | none => .ok ()

def create (main : Node) (definitions : List Definition) : Except ProgramError Program := do
  if main.isAbsent then throw .absentMain
  let taken := (main.asFunction?.map (·.name)).toList
  checkNames taken 0 definitions
  checkNodes definitions main
  return ⟨definitions, main⟩

/-- The definition with a name, or the entry if it is a function of that name. -/
def definition? (program : Program) (name : String) : Option Definition :=
  (program.definitions ++ program.main.asFunction?.toList).find? (·.name == name)

/-- The name of the environment, or the empty text if there is none. -/
def environment (program : Program) : String :=
  (program.main.preorder.findSome? Node.environmentName?).getD ""

/-- The trees of the program in the order in which they are written. -/
def trees (program : Program) : List Node :=
  program.definitions.map Definition.toNode ++ [program.main]

/-- The source text of the program without blank space around it. -/
def render (program : Program) : Except RenderError String := do
  if program.main.isAbsent then throw .emptyProgram
  let environment := program.environment
  let definitions ← program.definitions.mapM (·.toNode.renderWith environment)
  let main ← program.main.renderWith environment
  return Text.trimBlank (String.join (definitions.map (· ++ "\n")) ++ main)

/-- The member of the environment that a node refers to. -/
def environmentMember? (environment : String) : Node → Option String
  | .member operand field =>
    if operand.isEnvironment environment && field ≠ "" then some field else none
  | .swizzle operand selection =>
    if operand.isEnvironment environment && selection.pattern ≠ "" then some selection.pattern
    else none
  | _ => none

/-- The members of the environment that the program refers to, each once, in the
order of their first use. -/
def environmentMembers (program : Program) : List String :=
  let environment := program.environment
  let used := (Node.preorderAll program.trees).filterMap (environmentMember? environment)
  used.foldl (fun members name => if name ∈ members then members else members ++ [name]) []

/-- The program without the definitions that its entry does not reach. -/
def prune (program : Program) : Except UnknownNode Program := do
  return ⟨← reachable program.definitions [program.main], program.main⟩

/-- The program with more definitions in front of its own. -/
def withDefinitions (program : Program) (definitions : List Definition) :
    Except ProgramError Program :=
  match mergeDefinitions [definitions, program.definitions] with
  | .error cause => .error (.merge cause)
  | .ok merged => create program.main merged

section Search

variable {m : Type → Type} [Monad m]

/-- Visits the definitions in order and then the entry. -/
def walk (program : Program) (visit : Node → m Bool) : ExceptT UnknownNode m Bool :=
  Node.walkAll visit program.trees

/-- The first node that satisfies a condition. -/
def findM? (program : Program) (condition : Node → m Bool) :
    ExceptT UnknownNode m (Option Node) :=
  let visit (node : Node) : StateT (Option Node) m Bool := do
    if ← condition node then
      set (some node)
      return false
    else return true
  ExceptT.mk do
    let (outcome, found) ← (program.walk visit).run.run none
    return outcome.map fun _ => found

/-- Whether some node satisfies a condition. -/
def existsM (program : Program) (condition : Node → m Bool) : ExceptT UnknownNode m Bool := do
  return (← program.findM? condition).isSome

end Search

end Program

end NoiseShader
