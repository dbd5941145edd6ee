import NoiseShader.Program.Basic
import Mathlib.Tactic

/-!
# Flattening an environment

While a program is written, the name of its environment vanishes.  The same text
comes from a change to the trees alone: a member of the environment becomes the
variable it names, so does a valid swizzle of it, and what is left of the name
becomes an empty piece of text.

A member binds as a postfix, and the variable in its place is primary.  No place
of an operand tells the two apart, so parentheses stand in the changed tree where
they stand in the old one.
-/

namespace NoiseShader

/-- The places where an operand may get parentheses: nothing binds tighter than a postfix, and a
postfix groups on its only side. -/
def OperandPlace (parent : Binding) (grouped : Bool) : Prop :=
  parent.rank < Binding.postfixed.rank ∨ parent = .postfixed ∧ grouped = false

theorem needsParentheses_of_lt {operand parent : Binding} (hlt : parent.rank < operand.rank)
    (grouped : Bool) : needsParentheses operand parent grouped = false := by
  have hnotLess : ¬ operand.rank < parent.rank := by omega
  have hnotEqual : operand.rank ≠ parent.rank := by omega
  simp [needsParentheses, hnotLess, hnotEqual]

theorem operandPlace_operator (operator : String) (grouped : Bool) :
    OperandPlace (operatorBinding operator) grouped :=
  .inl (lt_of_le_of_lt (operatorBinding_rank_le operator) (by decide))

namespace Node

def isNamed (name : String) : Node → Bool
  | identifier other => other == name
  | _ => false

theorem isEnvironment_eq_isNamed {environment : String} (hnamed : environment ≠ "")
    (node : Node) : isEnvironment environment node = node.isNamed environment := by
  cases node with
  | identifier name => simp [isEnvironment, isNamed, hnamed]
  | _ => rfl

mutual

/-- The tree in which members of an environment stand without its name, and an empty text stands
wherever else the name stood. -/
def flatten (environment : String) : Node → Node
  | absent => absent
  | literal value => literal value
  | identifier name => if name = environment then literal (.raw "") else identifier name
  | call name arguments => call name (flattenAll environment arguments)
  | binary operator left right =>
    binary operator (flatten environment left) (flatten environment right)
  | unary operator operand => unary operator (flatten environment operand)
  | conditional condition whenTrue whenFalse =>
    conditional (flatten environment condition) (flatten environment whenTrue)
      (flatten environment whenFalse)
  | swizzle operand selection =>
    if operand.isNamed environment ∧ selection.arity ≠ 0 then identifier selection.pattern
    else swizzle (flatten environment operand) selection
  | member operand field =>
    if operand.isNamed environment then identifier field
    else member (flatten environment operand) field
  | index operand position =>
    index (flatten environment operand) (flatten environment position)
  | assignment target value =>
    assignment (flatten environment target) (flatten environment value)
  | declaration type name value => declaration type name (flatten environment value)
  | result value => result (flatten environment value)
  | function name returnType parameters body =>
    function name returnType parameters (flattenAll environment body)
  | block name statements => block name (flattenAll environment statements)
  | reference target => reference target

def flattenAll (environment : String) : List Node → List Node
  | [] => []
  | node :: rest => flatten environment node :: flattenAll environment rest

end

section Kept

variable (environment : String)

theorem isAbsent_flatten (node : Node) : (node.flatten environment).isAbsent = node.isAbsent := by
  cases node with
  | identifier | swizzle | member =>
      unfold flatten
      split_ifs <;> rfl
  | _ => simp [flatten, isAbsent]

theorem isStatement_flatten (node : Node) :
    (node.flatten environment).isStatement = node.isStatement := by
  cases node with
  | identifier | swizzle | member =>
      unfold flatten
      split_ifs <;> rfl
  | _ => simp [flatten, isStatement]

theorem binding_flatten (node : Node) :
    (node.flatten environment).binding = node.binding ∨
      node.binding = .postfixed ∧ (node.flatten environment).binding = .primary := by
  cases node with
  | identifier | swizzle | member =>
      unfold flatten
      split_ifs <;> simp [binding, Literal.isSigned]
  | _ => simp [flatten, binding]

theorem needsParentheses_flatten {parent : Binding} {grouped : Bool}
    (hplace : OperandPlace parent grouped) (node : Node) :
    needsParentheses (node.flatten environment).binding parent grouped =
      needsParentheses node.binding parent grouped := by
  rcases binding_flatten environment node with hsame | ⟨hold, hnew⟩
  · rw [hsame]
  · rw [hold, hnew]
    rcases hplace with hlow | ⟨rfl, rfl⟩
    · have hlower : parent.rank < Binding.primary.rank := hlow.trans (by decide)
      rw [needsParentheses_of_lt hlow, needsParentheses_of_lt hlower]
    · rfl

end Kept

/-! ## Writing the flattened tree -/

section Writing

variable {environment : String}

mutual

theorem renderIn_flatten (hnamed : environment ≠ "") (position : Position) (node : Node) :
    node.renderIn environment position = (node.flatten environment).renderIn "" position := by
  cases node with
  | absent => simp [flatten, renderIn]
  | literal value => simp [flatten, renderIn]
  | reference target => simp [flatten, renderIn]
  | identifier name =>
      by_cases hname : name = environment
      · subst hname
        have hvanishes : isEnvironment name (identifier name) = true := by
          simp [isEnvironment, hnamed]
        simp only [flatten, renderIn, hvanishes, if_true]
        rfl
      · simp [flatten, renderIn, isEnvironment, hname]
  | call name arguments =>
      simp only [flatten, renderIn]
      rw [renderAll_flatten hnamed .expression arguments]
  | binary operator left right =>
      simp only [flatten, renderIn, renderIn_flatten hnamed .expression left,
        renderIn_flatten hnamed .expression right,
        needsParentheses_flatten environment (operandPlace_operator operator _)]
  | unary operator operand =>
      have hplace : OperandPlace .unary true := .inl (by decide)
      simp only [flatten, renderIn, renderIn_flatten hnamed .expression operand,
        needsParentheses_flatten environment hplace]
  | conditional condition whenTrue whenFalse =>
      have hplace : OperandPlace .conditional true := .inl (by decide)
      simp only [flatten, renderIn, renderIn_flatten hnamed .expression condition,
        renderIn_flatten hnamed .expression whenTrue,
        renderIn_flatten hnamed .expression whenFalse,
        needsParentheses_flatten environment hplace]
  | swizzle operand selection =>
      have hplace : OperandPlace .postfixed false := .inr ⟨rfl, rfl⟩
      by_cases harity : selection.arity = 0
      · simp [flatten, renderIn, harity]
      · by_cases hoperand : operand.isNamed environment = true
        · simp [flatten, renderIn, harity, hoperand, isEnvironment_eq_isNamed hnamed,
            isEnvironment_empty]
        · have hkept : (swizzle operand selection).flatten environment =
              swizzle (operand.flatten environment) selection := by
            simp [flatten, hoperand]
          simp only [hkept, renderIn, hoperand, isEnvironment_eq_isNamed hnamed,
            isEnvironment_empty, renderIn_flatten hnamed .expression operand,
            needsParentheses_flatten environment hplace]
  | member operand field =>
      have hplace : OperandPlace .postfixed false := .inr ⟨rfl, rfl⟩
      by_cases hoperand : operand.isNamed environment = true
      · simp [flatten, renderIn, hoperand, isEnvironment_eq_isNamed hnamed, isEnvironment_empty]
      · have hkept : (member operand field).flatten environment =
            member (operand.flatten environment) field := by
          simp [flatten, hoperand]
        simp only [hkept, renderIn, hoperand, isEnvironment_eq_isNamed hnamed,
          isEnvironment_empty, renderIn_flatten hnamed .expression operand,
          needsParentheses_flatten environment hplace]
  | index operand selected =>
      have hplace : OperandPlace .postfixed false := .inr ⟨rfl, rfl⟩
      simp only [flatten, renderIn, renderIn_flatten hnamed .expression operand,
        renderIn_flatten hnamed .expression selected, needsParentheses_flatten environment hplace]
  | assignment target value =>
      have hplace : OperandPlace .assignment true := .inl (by decide)
      simp only [flatten, renderIn, renderIn_flatten hnamed .expression target,
        renderIn_flatten hnamed .expression value, needsParentheses_flatten environment hplace]
  | declaration type name value =>
      simp only [flatten, renderIn, isAbsent_flatten,
        renderIn_flatten hnamed .expression value]
  | result value =>
      simp only [flatten, renderIn, isAbsent_flatten,
        renderIn_flatten hnamed .expression value]
  | function name returnType parameters body =>
      simp only [flatten, renderIn]
      rw [renderAll_flatten hnamed _ body]
  | block name statements =>
      simp only [flatten, renderIn]
      rw [renderAll_flatten hnamed _ statements]

theorem renderAll_flatten (hnamed : environment ≠ "") (position : Position) (nodes : List Node) :
    renderAll environment position nodes =
      renderAll "" position (flattenAll environment nodes) := by
  cases nodes with
  | nil => simp [flattenAll, renderAll]
  | cons node rest =>
      simp only [flattenAll, renderAll]
      rw [renderIn_flatten hnamed position node, renderAll_flatten hnamed position rest]

end

theorem renderWith_flatten (hnamed : environment ≠ "") (node : Node) :
    node.renderWith environment = (node.flatten environment).render := by
  unfold render renderWith
  rw [isStatement_flatten, renderIn_flatten hnamed]

end Writing

end Node

namespace Program

/-- What the environment of a program does to a tree; without one it does nothing. -/
def flattened (program : Program) (node : Node) : Node :=
  if program.environment = "" then node else node.flatten program.environment

theorem renderWith_environment (program : Program) (node : Node) :
    node.renderWith program.environment = (program.flattened node).render := by
  unfold flattened
  by_cases hnamed : program.environment = ""
  · rw [if_pos hnamed, hnamed, Node.render]
  · rw [if_neg hnamed, Node.renderWith_flatten hnamed]

/-- A program is written by flattening its trees and writing them plainly, without the blank space
around them, and parentheses stand where they stood before. -/
theorem render_eq_render_flattened (program : Program) :
    (∀ tree ∈ program.trees,
      tree.renderWith program.environment = (program.flattened tree).render) ∧
    (program.render =
      if program.main.isAbsent then .error .emptyProgram
      else do
        let definitions ← program.definitions.mapM fun definition =>
          (program.flattened definition.toNode).render
        let main ← (program.flattened program.main).render
        return Text.trimBlank (String.join (definitions.map (· ++ "\n")) ++ main)) ∧
    (∀ text, Text.Trims text (Text.trimBlank text)) ∧
    ∀ node parent grouped, OperandPlace parent grouped →
      needsParentheses (program.flattened node).binding parent grouped =
        needsParentheses node.binding parent grouped := by
  refine ⟨fun tree _ => program.renderWith_environment tree, ?_, Text.trims_trimBlank, ?_⟩
  · unfold render
    simp only [renderWith_environment]
    cases program.main.isAbsent <;> rfl
  · intro node parent grouped hplace
    unfold flattened
    by_cases hnamed : program.environment = ""
    · rw [if_pos hnamed]
    · rw [if_neg hnamed, Node.needsParentheses_flatten _ hplace]

/-- The definition and the entry both refer to the environment `Env`, which has a member of its own
name. -/
def tinted : Program where
  definitions := [⟨"tint", "float", [], [.result (.member (.identifier "Env") "gain")]⟩]
  main := .block "Env"
    [.assignment (.index (.swizzle (.identifier "Env") ⟨2, "xy", [0, 1]⟩) (.literal (.int 0)))
      (.unary "-" (.member (.identifier "Env") "Env")), .call "tint" [.identifier "Env"]]

theorem render_eq_render_flattened_tinted :
    tinted.environment = "Env" ∧
      tinted.main.renderWith tinted.environment = .ok "xy[0] = -Env;\ntint();" ∧
      tinted.render =
        .ok "float tint() \x7b\n\treturn gain;\n\x7d\nxy[0] = -Env;\ntint();" ∧
      needsParentheses (tinted.flattened (.member (.identifier "Env") "Env")).binding .unary true =
        needsParentheses (Node.member (.identifier "Env") "Env").binding .unary true := by
  obtain ⟨htrees, hrender, -, hparentheses⟩ := tinted.render_eq_render_flattened
  have hplace : OperandPlace .unary true := .inl (by decide)
  refine ⟨by decide, ?_, ?_, hparentheses _ _ _ hplace⟩
  · rw [htrees tinted.main (List.mem_append_right _ List.mem_cons_self)]
    decide
  · rw [hrender]
    decide

end Program

end NoiseShader
