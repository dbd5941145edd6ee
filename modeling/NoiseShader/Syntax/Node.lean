import NoiseShader.Vector.Swizzle

/-!
# Syntax trees of the shading language

One type of node covers expressions, statements and function definitions,
because any of them may stand where a tree is expected.  Two constructors are no
part of the language: `absent` fills a place without a node, and `reference`
stands for a node held by reference instead of by value, which no operation on
trees accepts.

`Node.preorder` lists the nodes of a tree, parents before children and children
from left to right; absent places are skipped and references are not entered.
`Node.walk` visits the same nodes in the same order under a callback that can
stop the traversal.
-/

namespace NoiseShader

inductive Literal where
  | float (value : Float32)
  | double (value : Float)
  | int (value : Int)
  | uint (value : UInt32)
  | bool (value : Bool)
  | raw (text : String)
  /-- A value of a type that has no notation, with the name of the type. -/
  | unsupported (typeName : String)

structure Parameter where
  type : String
  name : String
deriving DecidableEq, Repr

inductive Node where
  | absent
  | literal (value : Literal)
  | identifier (name : String)
  | call (name : String) (arguments : List Node)
  | binary (operator : String) (left right : Node)
  | unary (operator : String) (operand : Node)
  | conditional (condition whenTrue whenFalse : Node)
  | swizzle (operand : Node) (selection : Swizzle)
  | member (operand : Node) (field : String)
  | index (operand position : Node)
  | assignment (target value : Node)
  | declaration (type name : String) (value : Node)
  | result (value : Node)
  | function (name returnType : String) (parameters : List Parameter) (body : List Node)
  | block (name : String) (statements : List Node)
  | reference (target : Node)

/-- A function definition on its own. -/
structure Definition where
  name : String
  returnType : String
  parameters : List Parameter
  body : List Node

def Definition.toNode (f : Definition) : Node :=
  .function f.name f.returnType f.parameters f.body

/-- A node of a kind that operations on trees do not know. -/
structure UnknownNode where
  typeName : String
deriving DecidableEq, Repr

def UnknownNode.message (e : UnknownNode) : String := "glbuild: unknown node type " ++ e.typeName

namespace Node

def typeName : Node → String
  | absent => "<nil>"
  | literal _ => "glbuild.Literal"
  | identifier _ => "glbuild.Identifier"
  | call _ _ => "glbuild.Call"
  | binary _ _ _ => "glbuild.BinaryOp"
  | unary _ _ => "glbuild.Unary"
  | conditional _ _ _ => "glbuild.Ternary"
  | swizzle _ _ => "glbuild.Swizzle"
  | member _ _ => "glbuild.Member"
  | index _ _ => "glbuild.Index"
  | assignment _ _ => "glbuild.Assignment"
  | declaration _ _ _ => "glbuild.Declare"
  | result _ => "glbuild.Return"
  | function _ _ _ _ => "glbuild.FunctionDef"
  | block _ _ => "glbuild.Block"
  | reference target => "*" ++ target.typeName

def isAbsent : Node → Bool
  | absent => true
  | _ => false

def isReference : Node → Bool
  | reference _ => true
  | _ => false

def asFunction? : Node → Option Definition
  | function name returnType parameters body => some ⟨name, returnType, parameters, body⟩
  | _ => none

/-- The name of a block that opens an environment. -/
def environmentName? : Node → Option String
  | block name _ => if name = "" then none else some name
  | _ => none

def calledName? : Node → Option String
  | call name _ => some name
  | _ => none

mutual

def preorder : Node → List Node
  | absent => []
  | literal value => [literal value]
  | identifier name => [identifier name]
  | call name arguments => call name arguments :: preorderAll arguments
  | binary operator left right =>
    binary operator left right :: (preorder left ++ preorder right)
  | unary operator operand => unary operator operand :: preorder operand
  | conditional condition whenTrue whenFalse =>
    conditional condition whenTrue whenFalse ::
      (preorder condition ++ preorder whenTrue ++ preorder whenFalse)
  | swizzle operand selection => swizzle operand selection :: preorder operand
  | member operand field => member operand field :: preorder operand
  | index operand position => index operand position :: (preorder operand ++ preorder position)
  | assignment target value => assignment target value :: (preorder target ++ preorder value)
  | declaration type name value => declaration type name value :: preorder value
  | result value => result value :: preorder value
  | function name returnType parameters body =>
    function name returnType parameters body :: preorderAll body
  | block name statements => block name statements :: preorderAll statements
  | reference target => [reference target]

def preorderAll : List Node → List Node
  | [] => []
  | node :: rest => preorder node ++ preorderAll rest

end

/-- The first node of a tree that is no node of the language. -/
def unknown? (node : Node) : Option UnknownNode :=
  (node.preorder.find? isReference).map fun found => ⟨found.typeName⟩

section Walk

variable {m : Type → Type} [Monad m]

mutual

/-- Calls `visit` on the nodes of a tree until it answers `false`, and tells
whether the traversal came to its end.  A reference is visited, and fails unless
the visit stops there. -/
def walk (visit : Node → m Bool) : Node → ExceptT UnknownNode m Bool
  | absent => pure true
  | literal value => visit (literal value)
  | identifier name => visit (identifier name)
  | call name arguments => do
    if ← visit (call name arguments) then walkAll visit arguments else pure false
  | binary operator left right => do
    if ← visit (binary operator left right) then
      if ← walk visit left then walk visit right else pure false
    else pure false
  | unary operator operand => do
    if ← visit (unary operator operand) then walk visit operand else pure false
  | conditional condition whenTrue whenFalse => do
    if ← visit (conditional condition whenTrue whenFalse) then
      if ← walk visit condition then
        if ← walk visit whenTrue then walk visit whenFalse else pure false
      else pure false
    else pure false
  | swizzle operand selection => do
    if ← visit (swizzle operand selection) then walk visit operand else pure false
  | member operand field => do
    if ← visit (member operand field) then walk visit operand else pure false
  | index operand position => do
    if ← visit (index operand position) then
      if ← walk visit operand then walk visit position else pure false
    else pure false
  | assignment target value => do
    if ← visit (assignment target value) then
      if ← walk visit target then walk visit value else pure false
    else pure false
  | declaration type name value => do
    if ← visit (declaration type name value) then walk visit value else pure false
  | result value => do
    if ← visit (result value) then walk visit value else pure false
  | function name returnType parameters body => do
    if ← visit (function name returnType parameters body) then walkAll visit body else pure false
  | block name statements => do
    if ← visit (block name statements) then walkAll visit statements else pure false
  | reference target => do
    if ← visit (reference target) then throw ⟨(reference target).typeName⟩ else pure false

def walkAll (visit : Node → m Bool) : List Node → ExceptT UnknownNode m Bool
  | [] => pure true
  | node :: rest => do
    if ← walk visit node then walkAll visit rest else pure false

end

end Walk

end Node

end NoiseShader
