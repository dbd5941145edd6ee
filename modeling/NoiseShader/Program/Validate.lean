import NoiseShader.Program.Basic
import NoiseShader.Program.Words

/-!
# Semantic checks of programs

The checks find calls to functions that are not defined before their use, names
that belong to the language, and variables that are used before their
declaration or declared twice.  Functions are checked in order and become known
when their own check begins, so a function may call itself.  Blocks share the
scope they stand in; a function inside a function starts a scope of its own.

All defects are reported, in the order in which they are found.
-/

namespace NoiseShader

open Text (quoted)

/-- What a checked name is the name of. -/
inductive NameRole where
  | global
  | function
  | parameter (owner : String)
  | variable (owner : String)
deriving DecidableEq, Repr

def NameRole.text : NameRole → String
  | .global => "global"
  | .function => "function"
  | .parameter owner => "parameter of " ++ owner
  | .variable owner => "variable in " ++ owner

inductive Defect where
  | reservedName (role : NameRole) (name : String)
  | builtinName (role : NameRole) (name : String)
  | redeclared (function name : String)
  | undeclared (function name : String)
  | undefinedCall (function name : String)
deriving DecidableEq, Repr

def Defect.message : Defect → String
  | .reservedName role name => role.text ++ " " ++ quoted name ++ " is a GLSL reserved word"
  | .builtinName role name =>
    role.text ++ " " ++ quoted name ++ " shadows a GLSL built-in function"
  | .redeclared function name => function ++ ": redeclaration of " ++ quoted name
  | .undeclared function name => function ++ ": undeclared identifier " ++ quoted name
  | .undefinedCall function name => function ++ ": call to undefined function " ++ quoted name

namespace Validate

/-- What stays the same during a check. -/
structure Setting where
  environment : String
  globals : List String

/-- The functions known so far, the variables in scope, and the defects found. -/
structure State where
  functions : List String
  scope : List String
  defects : List Defect

def nameDefects (role : NameRole) (name : String) : List Defect :=
  if Words.isReserved name then [.reservedName role name]
  else if Words.isBuiltinFunction name then [.builtinName role name]
  else []

/-- The defect of one node of an expression in a function. -/
def nodeDefect? (setting : Setting) (function : String) (state : State) : Node → Option Defect
  | .identifier name =>
    if name = setting.environment ∨ name ∈ state.scope ∨ Words.isPredeclared name then none
    else some (.undeclared function name)
  | .call name _ =>
    if Words.isBuiltinFunction name ∨ name ∈ state.functions ∨ Words.isType name then none
    else some (.undefinedCall function name)
  | _ => none

def State.report (state : State) (defects : List Defect) : State :=
  { state with defects := state.defects ++ defects }

def afterExpression (setting : Setting) (function : String) (state : State) (node : Node) : State :=
  state.report (node.preorder.filterMap (nodeDefect? setting function state))

/-- The state in which the body of a function is checked. -/
def enterFunction (setting : Setting) (state : State) (name : String)
    (parameters : List Parameter) : State :=
  let nameFound := if name = "main" then [] else nameDefects .function name
  let parametersFound := parameters.flatMap fun p => nameDefects (.parameter name) p.name
  { functions := name :: state.functions
    scope := parameters.map (·.name) ++ setting.globals
    defects := state.defects ++ nameFound ++ parametersFound }

def declareVariable (function : String) (state : State) (name : String) : State :=
  let repeated := if name ∈ state.scope then [.redeclared function name] else []
  { state with
    scope := name :: state.scope
    defects := state.defects ++ nameDefects (.variable function) name ++ repeated }

mutual

def afterStatement (setting : Setting) (function : String) (state : State) : Node → State
  | .block _ statements => afterStatements setting function state statements
  | .function name _ parameters body =>
    let inside := afterStatements setting name (enterFunction setting state name parameters) body
    { inside with scope := state.scope }
  | .declaration _ name value =>
    declareVariable function (afterExpression setting function state value) name
  | node => afterExpression setting function state node

def afterStatements (setting : Setting) (function : String) (state : State) : List Node → State
  | [] => state
  | statement :: rest =>
    afterStatements setting function (afterStatement setting function state statement) rest

end

end Validate

/-- The defects of a program that may refer to the given global variables. -/
def Program.validate (program : Program) (globals : List String) : List Defect :=
  let setting : Validate.Setting := ⟨program.environment, globals⟩
  let start : Validate.State :=
    ⟨[], globals, globals.flatMap (Validate.nameDefects .global)⟩
  (Validate.afterStatements setting "main" start program.trees).defects

end NoiseShader
