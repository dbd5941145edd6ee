import NoiseShader.Number.Decimal
import NoiseShader.Syntax.Build

/-!
# Source text of syntax trees

A tree is written either as a statement at some depth of indentation or as an
expression.  Operands are put in parentheses where the way they bind would
otherwise regroup them: an operand that binds more loosely than its operator,
or as loosely on a side where the operator does not group.

While a program with an environment is written, the name of the environment
vanishes: a member or a swizzle of it is written as the bare member, and the name
alone as nothing at all.

Writing fails on nodes that are not in the language, on literals without a
notation and on swizzles that were never validated.
-/

namespace NoiseShader

open Number (natText intText)

/-- A number in the notation of the shading language.  There is always a decimal
point, and what has no notation of its own is written as a division by zero. -/
def floatText (x : Float32) : String :=
  match Number.Binary32.parts x with
  | .notANumber => "(0.0/0.0)"
  | .infinite false => "(1.0/0.0)"
  | .infinite true => "(-1.0/0.0)"
  | .finite negative significand exponent =>
    let digits := (Number.Format.binary32.shortest significand exponent).positional
    (if negative then "-" else "") ++ if digits.contains '.' then digits else digits ++ ".0"

/-- Appends a number to bytes.  The point is looked for in what was appended, whatever
stands before it. -/
def appendFloat (buffer : List UInt8) (x : Float32) : List UInt8 :=
  match Number.Binary32.parts x with
  | .notANumber => buffer ++ Text.bytes "(0.0/0.0)"
  | .infinite false => buffer ++ Text.bytes "(1.0/0.0)"
  | .infinite true => buffer ++ Text.bytes "(-1.0/0.0)"
  | .finite negative significand exponent =>
    let digits := (Number.Format.binary32.shortest significand exponent).positional
    let appended := buffer ++ Text.bytes ((if negative then "-" else "") ++ digits)
    if (appended.drop buffer.length).contains 0x2e then appended
    else appended ++ Text.bytes ".0"

/-- Appends numbers to bytes, with a separator between them unless it is zero. -/
def appendFloats (buffer : List UInt8) (separator : UInt8) : List Float32 → List UInt8
  | [] => buffer
  | [x] => appendFloat buffer x
  | x :: rest =>
    let appended := appendFloat buffer x
    let separated := if separator = 0 then appended else appended ++ [separator]
    appendFloats separated separator rest

inductive RenderError where
  | unknownNode (cause : UnknownNode)
  | unsupportedLiteral (typeName : String)
  | unsetSwizzle
  | emptyProgram
deriving DecidableEq, Repr

def RenderError.message : RenderError → String
  | .unknownNode cause => cause.message
  | .unsupportedLiteral typeName => "glbuild: unsupported literal value type " ++ typeName
  | .unsetSwizzle => "glbuild: render of unvalidated Swizzle, build with NewSwizzle"
  | .emptyProgram => "render of zero value Program"

namespace Literal

def render : Literal → Except RenderError String
  | float value => .ok (floatText value)
  | double value => .ok (floatText (Number.Binary32.ofDouble value))
  | int value => .ok (intText value)
  | uint value => .ok (natText value.toNat ++ "u")
  | bool value => .ok (if value then "true" else "false")
  | raw text => .ok text
  | unsupported typeName => .error (.unsupportedLiteral typeName)

/-- Whether a literal counts as one with a sign in front. -/
def isSigned : Literal → Bool
  | float value => Number.Binary32.isNegative value
  | double value => decide (value < 0)
  | int value => decide (value < 0)
  | _ => false

end Literal

/-- The binding of a binary operator; symbols that are no operators bind as
loosely as an assignment. -/
def operatorBinding (operator : String) : Binding :=
  (binaryOperators.lookup operator).getD .assignment

theorem operatorBinding_rank_le (operator : String) : (operatorBinding operator).rank ≤ 12 := by
  unfold operatorBinding
  cases hlookup : binaryOperators.lookup operator with
  | none => exact Nat.zero_le 12
  | some binding =>
      have hall : ∀ entry ∈ binaryOperators, entry.2.rank ≤ 12 := by decide
      obtain ⟨front, back, hlist, -⟩ := List.lookup_eq_some_iff.mp hlookup
      exact hall (operator, binding) (by simp [hlist])

namespace Node

def binding : Node → Binding
  | binary operator _ _ => operatorBinding operator
  | unary _ _ => .unary
  | conditional _ _ _ => .conditional
  | assignment _ _ => .assignment
  | swizzle _ _ => .postfixed
  | member _ _ => .postfixed
  | index _ _ => .postfixed
  | literal value => if value.isSigned then .unary else .primary
  | _ => .primary

/-- Whether a node is the name of the environment that is being flattened. -/
def isEnvironment (environment : String) : Node → Bool
  | identifier name => environment ≠ "" && name == environment
  | _ => false

theorem isEnvironment_empty (node : Node) : isEnvironment "" node = false := by
  cases node <;> rfl

end Node

/-- Where a piece of source text stands. -/
inductive Position where
  | expression
  | statement (depth : Nat)
deriving DecidableEq, Repr

namespace Position

/-- Statements inside an expression are written without indentation. -/
def depth : Position → Nat
  | expression => 0
  | statement depth => depth

end Position

def indentation (depth : Nat) : String := String.ofList (List.replicate depth '\t')

def parenthesized (inside : Bool) (text : String) : String :=
  if inside then "(" ++ text ++ ")" else text

/-- Whether an operand needs parentheses.  `grouped` is set on the side where
operators of one binding do not group by themselves. -/
def needsParentheses (operand parent : Binding) (grouped : Bool) : Bool :=
  decide (operand.rank < parent.rank) || (grouped && operand.rank == parent.rank)

/-- An expression in its place. -/
def placed (position : Position) (text : String) : String :=
  match position with
  | .expression => text
  | .statement depth => indentation depth ++ text ++ ";"

/-- A text that is a statement wherever it stands. -/
def statementText (position : Position) (text : String) : String :=
  indentation position.depth ++ text ++ ";"

def parameterText (p : Parameter) : String := p.type ++ " " ++ p.name

namespace Node

mutual

def renderIn (environment : String) (position : Position) : Node → Except RenderError String
  | absent => .error (.unknownNode ⟨absent.typeName⟩)
  | reference target => .error (.unknownNode ⟨(reference target).typeName⟩)
  | literal value => do
    return placed position (← value.render)
  | identifier name =>
    return placed position (if isEnvironment environment (identifier name) then "" else name)
  | call name arguments => do
    let texts ← renderAll environment .expression arguments
    return placed position (name ++ "(" ++ ", ".intercalate texts ++ ")")
  | binary operator left right => do
    let parent := operatorBinding operator
    let leftText ← renderIn environment .expression left
    let rightText ← renderIn environment .expression right
    return placed position
      (parenthesized (needsParentheses left.binding parent false) leftText ++ " " ++ operator ++
        " " ++ parenthesized (needsParentheses right.binding parent true) rightText)
  | unary operator operand => do
    let text ← renderIn environment .expression operand
    return placed position
      (operator ++ parenthesized (needsParentheses operand.binding .unary true) text)
  | conditional condition whenTrue whenFalse => do
    let conditionText ← renderIn environment .expression condition
    let trueText ← renderIn environment .expression whenTrue
    let falseText ← renderIn environment .expression whenFalse
    return placed position
      (parenthesized (needsParentheses condition.binding .conditional true) conditionText ++
        " ? " ++ parenthesized (needsParentheses whenTrue.binding .conditional true) trueText ++
        " : " ++ parenthesized (needsParentheses whenFalse.binding .conditional true) falseText)
  | swizzle operand selection =>
    if selection.arity = 0 then .error .unsetSwizzle
    else if isEnvironment environment operand then return placed position selection.pattern
    else do
      let text ← renderIn environment .expression operand
      return placed position
        (parenthesized (needsParentheses operand.binding .postfixed false) text ++ "." ++
          selection.pattern)
  | member operand field =>
    if isEnvironment environment operand then return placed position field
    else do
      let text ← renderIn environment .expression operand
      return placed position
        (parenthesized (needsParentheses operand.binding .postfixed false) text ++ "." ++ field)
  | index operand selected => do
    let text ← renderIn environment .expression operand
    let selectedText ← renderIn environment .expression selected
    return placed position
      (parenthesized (needsParentheses operand.binding .postfixed false) text ++ "[" ++
        selectedText ++ "]")
  | assignment target value => do
    let targetText ← renderIn environment .expression target
    let valueText ← renderIn environment .expression value
    let inside := position == .expression && needsParentheses target.binding .assignment true
    return placed position (parenthesized inside targetText ++ " = " ++ valueText)
  | declaration type name value => do
    if value.isAbsent then return statementText position (type ++ " " ++ name)
    let text ← renderIn environment .expression value
    return statementText position (type ++ " " ++ name ++ " = " ++ text)
  | result value => do
    if value.isAbsent then return statementText position "return"
    let text ← renderIn environment .expression value
    return statementText position ("return " ++ text)
  | function name returnType parameters body => do
    let texts ← renderAll environment (.statement (position.depth + 1)) body
    let margin := indentation position.depth
    return margin ++ returnType ++ " " ++ name ++ "(" ++
      ", ".intercalate (parameters.map parameterText) ++ ") \x7b\n" ++
      String.join (texts.map (· ++ "\n")) ++ margin ++ "\x7d"
  | block _ statements => do
    let texts ← renderAll environment (.statement position.depth) statements
    return "\n".intercalate texts

def renderAll (environment : String) (position : Position) :
    List Node → Except RenderError (List String)
  | [] => .ok []
  | node :: rest => do
    let text ← renderIn environment position node
    let texts ← renderAll environment position rest
    return text :: texts

end

/-- Whether a node is written as a statement when it stands alone. -/
def isStatement : Node → Bool
  | assignment _ _ => true
  | declaration _ _ _ => true
  | result _ => true
  | function _ _ _ _ => true
  | block _ _ => true
  | _ => false

/-- The source text of a tree that stands alone, with an environment flattened. -/
def renderWith (environment : String) (node : Node) : Except RenderError String :=
  node.renderIn environment (if node.isStatement then .statement 0 else .expression)

/-- The source text of a tree that stands alone. -/
def render (node : Node) : Except RenderError String := node.renderWith ""

end Node

end NoiseShader
