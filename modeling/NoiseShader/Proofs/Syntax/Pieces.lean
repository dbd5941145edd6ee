import NoiseShader.Syntax.Render
import Mathlib.Tactic

/-!
# Source text in pieces

The text of a tree is cut into pieces, so that a name which stands in the text for
a member or a swizzle of the environment is a piece of its own.  Put together, the
pieces are the text, and where there is no text there are no pieces.
-/

namespace NoiseShader

inductive Piece where
  | plain (text : String)
  | member (name : String)
deriving DecidableEq, Repr

namespace Piece

def text : Piece → String
  | plain text => text
  | member name => name

def member? : Piece → Option String
  | plain _ => none
  | member name => some name

end Piece

def written (pieces : List Piece) : String := String.join (pieces.map Piece.text)

/-- The names that stand for members of the environment, in the order of the text. -/
def emitted (pieces : List Piece) : List String := pieces.filterMap Piece.member?

@[simp] theorem written_nil : written [] = "" := rfl

@[simp] theorem written_cons (piece : Piece) (rest : List Piece) :
    written (piece :: rest) = piece.text ++ written rest := by
  simp [written]

@[simp] theorem written_append (front back : List Piece) :
    written (front ++ back) = written front ++ written back := by
  simp [written]

@[simp] theorem emitted_nil : emitted [] = [] := rfl

@[simp] theorem emitted_plain (text : String) (rest : List Piece) :
    emitted (.plain text :: rest) = emitted rest := rfl

@[simp] theorem emitted_member (name : String) (rest : List Piece) :
    emitted (.member name :: rest) = name :: emitted rest := rfl

@[simp] theorem emitted_append (front back : List Piece) :
    emitted (front ++ back) = emitted front ++ emitted back :=
  List.filterMap_append

/-! ## Putting pieces together -/

def placedPieces (position : Position) (pieces : List Piece) : List Piece :=
  match position with
  | .expression => pieces
  | .statement depth => .plain (indentation depth) :: pieces ++ [.plain ";"]

def statementPieces (position : Position) (pieces : List Piece) : List Piece :=
  .plain (indentation position.depth) :: pieces ++ [.plain ";"]

def parenthesizedPieces (inside : Bool) (pieces : List Piece) : List Piece :=
  if inside then .plain "(" :: pieces ++ [.plain ")"] else pieces

def separatedPieces (separator : String) (texts : List (List Piece)) : List Piece :=
  [Piece.plain separator].intercalate texts

def linePieces (lines : List (List Piece)) : List Piece :=
  lines.flatMap (· ++ [.plain "\n"])

@[simp] theorem written_placed (position : Position) (pieces : List Piece) :
    written (placedPieces position pieces) = placed position (written pieces) := by
  cases position <;> simp [placedPieces, placed, Piece.text, String.append_assoc]

@[simp] theorem emitted_placed (position : Position) (pieces : List Piece) :
    emitted (placedPieces position pieces) = emitted pieces := by
  cases position <;> simp [placedPieces]

@[simp] theorem written_statement (position : Position) (pieces : List Piece) :
    written (statementPieces position pieces) = statementText position (written pieces) := by
  simp [statementPieces, statementText, Piece.text, String.append_assoc]

@[simp] theorem emitted_statement (position : Position) (pieces : List Piece) :
    emitted (statementPieces position pieces) = emitted pieces := by
  simp [statementPieces]

@[simp] theorem written_parenthesized (inside : Bool) (pieces : List Piece) :
    written (parenthesizedPieces inside pieces) = parenthesized inside (written pieces) := by
  cases inside <;> simp [parenthesizedPieces, parenthesized, Piece.text, String.append_assoc]

@[simp] theorem emitted_parenthesized (inside : Bool) (pieces : List Piece) :
    emitted (parenthesizedPieces inside pieces) = emitted pieces := by
  cases inside <;> simp [parenthesizedPieces]

@[simp] theorem written_separated (separator : String) (texts : List (List Piece)) :
    written (separatedPieces separator texts) = separator.intercalate (texts.map written) := by
  unfold separatedPieces
  induction texts with
  | nil => simp
  | cons first rest ih =>
      cases rest with
      | nil => simp
      | cons second others =>
          rw [List.intercalate_cons_cons, written_append, written_append, ih]
          simp [Piece.text]

@[simp] theorem emitted_separated (separator : String) (texts : List (List Piece)) :
    emitted (separatedPieces separator texts) = texts.flatMap emitted := by
  unfold separatedPieces
  induction texts with
  | nil => simp
  | cons first rest ih =>
      cases rest with
      | nil => simp
      | cons second others =>
          rw [List.intercalate_cons_cons, emitted_append, emitted_append, ih]
          simp

@[simp] theorem written_lines (lines : List (List Piece)) :
    written (linePieces lines) = String.join ((lines.map written).map (· ++ "\n")) := by
  unfold linePieces
  induction lines with
  | nil => simp
  | cons line rest ih => simp [ih, Piece.text, String.append_assoc]

@[simp] theorem emitted_lines (lines : List (List Piece)) :
    emitted (linePieces lines) = lines.flatMap emitted := by
  unfold linePieces
  induction lines with
  | nil => simp
  | cons line rest ih => simp [ih]

/-! ## The pieces of a tree -/

namespace Node

mutual

/-- The text of a tree in pieces. -/
def pieces (environment : String) (position : Position) : Node → Except RenderError (List Piece)
  | absent => .error (.unknownNode ⟨absent.typeName⟩)
  | reference target => .error (.unknownNode ⟨(reference target).typeName⟩)
  | literal value => do
    return placedPieces position [.plain (← value.render)]
  | identifier name =>
    return placedPieces position
      [.plain (if isEnvironment environment (identifier name) then "" else name)]
  | call name arguments => do
    let texts ← piecesAll environment .expression arguments
    return placedPieces position
      (.plain (name ++ "(") :: separatedPieces ", " texts ++ [.plain ")"])
  | binary operator left right => do
    let parent := operatorBinding operator
    let leftText ← pieces environment .expression left
    let rightText ← pieces environment .expression right
    return placedPieces position
      (parenthesizedPieces (needsParentheses left.binding parent false) leftText ++
        .plain (" " ++ operator ++ " ") ::
          parenthesizedPieces (needsParentheses right.binding parent true) rightText)
  | unary operator operand => do
    let text ← pieces environment .expression operand
    return placedPieces position
      (.plain operator :: parenthesizedPieces (needsParentheses operand.binding .unary true) text)
  | conditional condition whenTrue whenFalse => do
    let conditionText ← pieces environment .expression condition
    let trueText ← pieces environment .expression whenTrue
    let falseText ← pieces environment .expression whenFalse
    return placedPieces position
      (parenthesizedPieces (needsParentheses condition.binding .conditional true) conditionText ++
        .plain " ? " ::
          parenthesizedPieces (needsParentheses whenTrue.binding .conditional true) trueText ++
        .plain " : " ::
          parenthesizedPieces (needsParentheses whenFalse.binding .conditional true) falseText)
  | swizzle operand selection =>
    if selection.arity = 0 then .error .unsetSwizzle
    else if isEnvironment environment operand then
      return placedPieces position [.member selection.pattern]
    else do
      let text ← pieces environment .expression operand
      return placedPieces position
        (parenthesizedPieces (needsParentheses operand.binding .postfixed false) text ++
          [.plain ("." ++ selection.pattern)])
  | member operand field =>
    if isEnvironment environment operand then return placedPieces position [.member field]
    else do
      let text ← pieces environment .expression operand
      return placedPieces position
        (parenthesizedPieces (needsParentheses operand.binding .postfixed false) text ++
          [.plain ("." ++ field)])
  | index operand selected => do
    let text ← pieces environment .expression operand
    let selectedText ← pieces environment .expression selected
    return placedPieces position
      (parenthesizedPieces (needsParentheses operand.binding .postfixed false) text ++
        .plain "[" :: selectedText ++ [.plain "]"])
  | assignment target value => do
    let targetText ← pieces environment .expression target
    let valueText ← pieces environment .expression value
    let inside := position == .expression && needsParentheses target.binding .assignment true
    return placedPieces position
      (parenthesizedPieces inside targetText ++ .plain " = " :: valueText)
  | declaration type name value => do
    if value.isAbsent then return statementPieces position [.plain (type ++ " " ++ name)]
    let text ← pieces environment .expression value
    return statementPieces position (.plain (type ++ " " ++ name ++ " = ") :: text)
  | result value => do
    if value.isAbsent then return statementPieces position [.plain "return"]
    let text ← pieces environment .expression value
    return statementPieces position (.plain "return " :: text)
  | function name returnType parameters body => do
    let lines ← piecesAll environment (.statement (position.depth + 1)) body
    let margin := indentation position.depth
    return .plain (margin ++ returnType ++ " " ++ name ++ "(" ++
      ", ".intercalate (parameters.map parameterText) ++ ") \x7b\n") ::
      linePieces lines ++ [.plain (margin ++ "\x7d")]
  | block _ statements => do
    let lines ← piecesAll environment (.statement position.depth) statements
    return separatedPieces "\n" lines

def piecesAll (environment : String) (position : Position) :
    List Node → Except RenderError (List (List Piece))
  | [] => .ok []
  | node :: rest => do
    let text ← pieces environment position node
    let texts ← piecesAll environment position rest
    return text :: texts

end

mutual

theorem renderIn_eq_written (environment : String) (position : Position) (node : Node) :
    node.renderIn environment position = written <$> node.pieces environment position := by
  cases node with
  | absent | reference =>
      simp only [renderIn, pieces]
      rfl
  | literal value =>
      simp [renderIn, pieces, Piece.text]
  | identifier name =>
      simp [renderIn, pieces, Piece.text]
  | call name arguments =>
      simp [renderIn, pieces, renderAll_eq_written environment .expression arguments, Piece.text,
        String.append_assoc]
  | binary operator left right =>
      simp [renderIn, pieces, renderIn_eq_written environment .expression left,
        renderIn_eq_written environment .expression right, Piece.text, String.append_assoc]
  | unary operator operand =>
      simp [renderIn, pieces, renderIn_eq_written environment .expression operand, Piece.text]
  | conditional condition whenTrue whenFalse =>
      simp [renderIn, pieces, renderIn_eq_written environment .expression condition,
        renderIn_eq_written environment .expression whenTrue,
        renderIn_eq_written environment .expression whenFalse, Piece.text, String.append_assoc]
  | swizzle operand selection =>
      simp only [renderIn, pieces]
      split_ifs
      · rfl
      · simp [Piece.text]
      · simp [renderIn_eq_written environment .expression operand, Piece.text,
          String.append_assoc]
  | member operand field =>
      simp only [renderIn, pieces]
      split_ifs
      · simp [Piece.text]
      · simp [renderIn_eq_written environment .expression operand, Piece.text,
          String.append_assoc]
  | index operand selected =>
      simp [renderIn, pieces, renderIn_eq_written environment .expression operand,
        renderIn_eq_written environment .expression selected, Piece.text, String.append_assoc]
  | assignment target value =>
      simp [renderIn, pieces, renderIn_eq_written environment .expression target,
        renderIn_eq_written environment .expression value, Piece.text, String.append_assoc]
  | declaration type name value =>
      simp only [renderIn, pieces]
      split_ifs
      · simp [Piece.text]
      · simp [renderIn_eq_written environment .expression value, Piece.text, String.append_assoc]
  | result value =>
      simp only [renderIn, pieces]
      split_ifs
      · simp [Piece.text]
      · simp [renderIn_eq_written environment .expression value, Piece.text]
  | function name returnType parameters body =>
      simp [renderIn, pieces,
        renderAll_eq_written environment (.statement (position.depth + 1)) body, Piece.text,
        String.append_assoc]
  | block name statements =>
      simp [renderIn, pieces,
        renderAll_eq_written environment (.statement position.depth) statements]

theorem renderAll_eq_written (environment : String) (position : Position) (nodes : List Node) :
    renderAll environment position nodes =
      List.map written <$> piecesAll environment position nodes := by
  cases nodes with
  | nil => rfl
  | cons node rest =>
      simp only [renderAll, piecesAll, renderIn_eq_written environment position node,
        renderAll_eq_written environment position rest, map_bind, bind_map_left, map_pure,
        List.map_cons]

end

end Node

end NoiseShader
