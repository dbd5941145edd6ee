import NoiseShader.Syntax.Node

/-!
# Checked construction of syntax trees

Each function builds one kind of node and refuses what the kind does not allow:
empty names, absent operands, operators that are not in the language.  Where
several things are wrong the cause reported is the one checked first.
-/

namespace NoiseShader

open Number (natText)
open Text (quoted)

inductive BuildError where
  | emptyIdentifier
  | emptyCall
  | absentArgument (position : Nat)
  | unknownBinaryOperator (operator : String)
  | absentBinaryOperand
  | unknownUnaryOperator (operator : String)
  | absentUnaryOperand
  | absentConditionalOperand
  | absentSwizzleOperand (pattern : String)
  | badSwizzle (cause : SwizzleError)
  | absentMemberOperand
  | emptyMember
  | absentIndexOperand
  | absentAssignmentOperand
  | incompleteDeclaration
  | incompleteFunction
  | absentFunctionStatement (position : Nat)
  | absentBlockStatement (position : Nat)
deriving DecidableEq, Repr

def BuildError.message : BuildError → String
  | .emptyIdentifier => "empty identifier name"
  | .emptyCall => "empty call name"
  | .absentArgument position => "nil call argument at position " ++ natText position
  | .unknownBinaryOperator operator => "invalid binary operator " ++ quoted operator
  | .absentBinaryOperand => "nil binary operand"
  | .unknownUnaryOperator operator => "invalid unary operator " ++ quoted operator
  | .absentUnaryOperand => "nil unary operand"
  | .absentConditionalOperand => "nil ternary operand"
  | .absentSwizzleOperand pattern => "nil swizzle operand for pattern " ++ quoted pattern
  | .badSwizzle cause => cause.message
  | .absentMemberOperand => "nil member operand"
  | .emptyMember => "empty member name"
  | .absentIndexOperand => "nil index operand"
  | .absentAssignmentOperand => "nil assignment operand"
  | .incompleteDeclaration => "declaration requires type and name"
  | .incompleteFunction => "function definition requires return type and name"
  | .absentFunctionStatement position => "nil function statement at position " ++ natText position
  | .absentBlockStatement position => "nil block statement at position " ++ natText position

/-- How tightly each kind of operator binds, from the loosest. -/
inductive Binding where
  | assignment
  | conditional
  | logicalOr
  | logicalXor
  | logicalAnd
  | bitOr
  | bitXor
  | bitAnd
  | equality
  | relational
  | shift
  | additive
  | multiplicative
  | unary
  | postfixed
  | primary
deriving DecidableEq, Repr

def Binding.rank : Binding → Nat
  | .assignment => 0
  | .conditional => 1
  | .logicalOr => 2
  | .logicalXor => 3
  | .logicalAnd => 4
  | .bitOr => 5
  | .bitXor => 6
  | .bitAnd => 7
  | .equality => 8
  | .relational => 9
  | .shift => 10
  | .additive => 11
  | .multiplicative => 12
  | .unary => 13
  | .postfixed => 14
  | .primary => 15

def binaryOperators : List (String × Binding) :=
  [("||", .logicalOr), ("^^", .logicalXor), ("&&", .logicalAnd), ("|", .bitOr), ("^", .bitXor),
    ("&", .bitAnd), ("==", .equality), ("!=", .equality), ("<", .relational), (">", .relational),
    ("<=", .relational), (">=", .relational), ("<<", .shift), (">>", .shift), ("+", .additive),
    ("-", .additive), ("*", .multiplicative), ("/", .multiplicative), ("%", .multiplicative)]

def unaryOperators : List String := ["-", "+", "!", "~"]

namespace Build

def firstAbsent? (nodes : List Node) : Option Nat := nodes.findIdx? Node.isAbsent

def identifier (name : String) : Except BuildError Node :=
  if name = "" then .error .emptyIdentifier else .ok (.identifier name)

def call (name : String) (arguments : List Node) : Except BuildError Node :=
  if name = "" then .error .emptyCall
  else
    match firstAbsent? arguments with
    | some position => .error (.absentArgument position)
    | none => .ok (.call name arguments)

def binary (operator : String) (left right : Node) : Except BuildError Node :=
  if (binaryOperators.lookup operator).isNone then .error (.unknownBinaryOperator operator)
  else if left.isAbsent || right.isAbsent then .error .absentBinaryOperand
  else .ok (.binary operator left right)

def unary (operator : String) (operand : Node) : Except BuildError Node :=
  if operator ∉ unaryOperators then .error (.unknownUnaryOperator operator)
  else if operand.isAbsent then .error .absentUnaryOperand
  else .ok (.unary operator operand)

def conditional (condition whenTrue whenFalse : Node) : Except BuildError Node :=
  if condition.isAbsent || whenTrue.isAbsent || whenFalse.isAbsent then
    .error .absentConditionalOperand
  else .ok (.conditional condition whenTrue whenFalse)

def swizzle (operand : Node) (arity : Int) (pattern : String) : Except BuildError Node :=
  if operand.isAbsent then .error (.absentSwizzleOperand pattern)
  else
    match Swizzle.ofPattern arity pattern with
    | .error cause => .error (.badSwizzle cause)
    | .ok selection => .ok (.swizzle operand selection)

def member (operand : Node) (field : String) : Except BuildError Node :=
  if operand.isAbsent then .error .absentMemberOperand
  else if field = "" then .error .emptyMember
  else .ok (.member operand field)

/-- A member of the environment called `environment`. -/
def environmentMember (environment field : String) : Except BuildError Node := do
  member (← identifier environment) field

def index (operand position : Node) : Except BuildError Node :=
  if operand.isAbsent || position.isAbsent then .error .absentIndexOperand
  else .ok (.index operand position)

def assignment (target value : Node) : Except BuildError Node :=
  if target.isAbsent || value.isAbsent then .error .absentAssignmentOperand
  else .ok (.assignment target value)

/-- A declaration; its value may be absent. -/
def declaration (type name : String) (value : Node) : Except BuildError Node :=
  if type = "" ∨ name = "" then .error .incompleteDeclaration
  else .ok (.declaration type name value)

def definition (returnType name : String) (parameters : List Parameter) (body : List Node) :
    Except BuildError Definition :=
  if returnType = "" ∨ name = "" then .error .incompleteFunction
  else
    match firstAbsent? body with
    | some position => .error (.absentFunctionStatement position)
    | none => .ok ⟨name, returnType, parameters, body⟩

/-- A block of statements; one with a name opens an environment. -/
def block (name : String) (statements : List Node) : Except BuildError Node :=
  match firstAbsent? statements with
  | some position => .error (.absentBlockStatement position)
  | none => .ok (.block name statements)

end Build

end NoiseShader
