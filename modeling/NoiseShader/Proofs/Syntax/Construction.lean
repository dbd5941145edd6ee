import NoiseShader.Proofs.Syntax.Grammar
import NoiseShader.Syntax.Build
import NoiseShader.Syntax.Render
import Mathlib.Tactic

/-!
# Trees from the checked constructors

A tree is built if every node of it is what its checked constructor returned.  A
constructor that accepts its arguments returns the node they make up, so a built
tree has no reference and no absent operand, and its members and swizzles have
names.
-/

namespace NoiseShader

namespace Node

/-- A literal has a notation, and every other node comes from its checked constructor. -/
inductive Built : Node → Prop
  | literal {value : Literal} {text : String} (hvalue : value.render = .ok text) :
      Built (.literal value)
  | identifier {name : String} {node : Node} (hbuilt : Build.identifier name = .ok node) :
      Built node
  | call {name : String} {arguments : List Node} {node : Node}
      (harguments : ∀ argument ∈ arguments, Built argument)
      (hbuilt : Build.call name arguments = .ok node) : Built node
  | binary {operator : String} {left right node : Node} (hleft : Built left)
      (hright : Built right) (hbuilt : Build.binary operator left right = .ok node) : Built node
  | unary {operator : String} {operand node : Node} (hoperand : Built operand)
      (hbuilt : Build.unary operator operand = .ok node) : Built node
  | conditional {condition whenTrue whenFalse node : Node} (hcondition : Built condition)
      (htrue : Built whenTrue) (hfalse : Built whenFalse)
      (hbuilt : Build.conditional condition whenTrue whenFalse = .ok node) : Built node
  | swizzle {operand node : Node} {arity : ℤ} {pattern : String} (hoperand : Built operand)
      (hbuilt : Build.swizzle operand arity pattern = .ok node) : Built node
  | member {operand node : Node} {field : String} (hoperand : Built operand)
      (hbuilt : Build.member operand field = .ok node) : Built node
  | index {operand position node : Node} (hoperand : Built operand) (hposition : Built position)
      (hbuilt : Build.index operand position = .ok node) : Built node
  | assignment {target value node : Node} (htarget : Built target) (hvalue : Built value)
      (hbuilt : Build.assignment target value = .ok node) : Built node
  | bareDeclaration {type name : String} {node : Node}
      (hbuilt : Build.declaration type name .absent = .ok node) : Built node
  | declaration {type name : String} {value node : Node} (hvalue : Built value)
      (hbuilt : Build.declaration type name value = .ok node) : Built node
  | bareResult : Built (.result .absent)
  | result {value : Node} (hvalue : Built value) : Built (.result value)
  | function {returnType name : String} {parameters : List Parameter} {body : List Node}
      {definition : Definition} (hbody : ∀ statement ∈ body, Built statement)
      (hbuilt : Build.definition returnType name parameters body = .ok definition) :
      Built definition.toNode
  | block {name : String} {statements : List Node} {node : Node}
      (hstatements : ∀ statement ∈ statements, Built statement)
      (hbuilt : Build.block name statements = .ok node) : Built node

end Node

/-- Every operator that can be built is at its level of the grammar. -/
theorem operatorLevel_of_lookup {operator : String} {binding : Binding}
    (hlookup : binaryOperators.lookup operator = some binding) :
    operatorLevel operator = some (operatorBinding operator).rank := by
  have hall : ∀ entry ∈ binaryOperators,
      operatorLevel entry.1 = some (operatorBinding entry.1).rank := by decide
  obtain ⟨before, after, hsplit, -⟩ := List.lookup_eq_some_iff.mp hlookup
  exact hall (operator, binding) (by rw [hsplit]; simp)

namespace Build

theorem eq_identifier {name : String} {node : Node} (hbuilt : identifier name = .ok node) :
    node = .identifier name := by
  unfold identifier at hbuilt
  split_ifs at hbuilt
  exact (Except.ok.inj hbuilt).symm

theorem eq_call {name : String} {arguments : List Node} {node : Node}
    (hbuilt : call name arguments = .ok node) : node = .call name arguments := by
  unfold call at hbuilt
  split_ifs at hbuilt
  split at hbuilt
  next => cases hbuilt
  next => exact (Except.ok.inj hbuilt).symm

theorem eq_binary {operator : String} {left right node : Node}
    (hbuilt : binary operator left right = .ok node) :
    node = .binary operator left right ∧
      operatorLevel operator = some (operatorBinding operator).rank := by
  unfold binary at hbuilt
  split_ifs at hbuilt with hoperator
  rw [Option.isNone_iff_eq_none] at hoperator
  obtain ⟨level, hlevel⟩ := Option.ne_none_iff_exists'.mp hoperator
  exact ⟨(Except.ok.inj hbuilt).symm, operatorLevel_of_lookup hlevel⟩

theorem eq_unary {operator : String} {operand node : Node}
    (hbuilt : unary operator operand = .ok node) :
    node = .unary operator operand ∧ operator ∈ prefixOperators := by
  unfold unary at hbuilt
  split_ifs at hbuilt with hoperator
  exact ⟨(Except.ok.inj hbuilt).symm, hoperator⟩

theorem eq_conditional {condition whenTrue whenFalse node : Node}
    (hbuilt : conditional condition whenTrue whenFalse = .ok node) :
    node = .conditional condition whenTrue whenFalse := by
  unfold conditional at hbuilt
  split_ifs at hbuilt
  exact (Except.ok.inj hbuilt).symm

theorem eq_swizzle {operand node : Node} {arity : ℤ} {pattern : String}
    (hbuilt : swizzle operand arity pattern = .ok node) :
    ∃ selection, Swizzle.ofPattern arity pattern = .ok selection ∧
      node = .swizzle operand selection := by
  unfold swizzle at hbuilt
  split_ifs at hbuilt
  split at hbuilt
  next => cases hbuilt
  next selection hselection => exact ⟨selection, hselection, (Except.ok.inj hbuilt).symm⟩

theorem eq_member {operand node : Node} {field : String}
    (hbuilt : member operand field = .ok node) : node = .member operand field := by
  unfold member at hbuilt
  split_ifs at hbuilt
  exact (Except.ok.inj hbuilt).symm

theorem eq_index {operand position node : Node} (hbuilt : index operand position = .ok node) :
    node = .index operand position := by
  unfold index at hbuilt
  split_ifs at hbuilt
  exact (Except.ok.inj hbuilt).symm

theorem eq_assignment {target value node : Node} (hbuilt : assignment target value = .ok node) :
    node = .assignment target value := by
  unfold assignment at hbuilt
  split_ifs at hbuilt
  exact (Except.ok.inj hbuilt).symm

theorem eq_declaration {type name : String} {value node : Node}
    (hbuilt : declaration type name value = .ok node) : node = .declaration type name value := by
  unfold declaration at hbuilt
  split_ifs at hbuilt
  exact (Except.ok.inj hbuilt).symm

theorem eq_definition {returnType name : String} {parameters : List Parameter}
    {body : List Node} {definition : Definition}
    (hbuilt : Build.definition returnType name parameters body = .ok definition) :
    definition = ⟨name, returnType, parameters, body⟩ := by
  unfold Build.definition at hbuilt
  split_ifs at hbuilt
  split at hbuilt
  next => cases hbuilt
  next => exact (Except.ok.inj hbuilt).symm

theorem eq_block {name : String} {statements : List Node} {node : Node}
    (hbuilt : block name statements = .ok node) : node = .block name statements := by
  unfold block at hbuilt
  split at hbuilt
  next => cases hbuilt
  next => exact (Except.ok.inj hbuilt).symm

theorem field_ne_of_member {operand node : Node} {field : String}
    (hbuilt : member operand field = .ok node) : field ≠ "" := by
  unfold member at hbuilt
  split_ifs at hbuilt with _ hfield
  exact hfield

end Build

end NoiseShader
