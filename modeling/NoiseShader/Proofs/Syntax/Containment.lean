import NoiseShader.Syntax.Node
import Mathlib.Tactic

/-!
# Nodes inside a tree

A node is inside a tree if it is the tree itself or inside one of the children of
its root.  The traversal of a tree meets exactly the nodes inside it, except for
absent places.
-/

namespace NoiseShader

namespace Node

def children : Node → List Node
  | absent => []
  | literal _ => []
  | identifier _ => []
  | call _ arguments => arguments
  | binary _ left right => [left, right]
  | unary _ operand => [operand]
  | conditional condition whenTrue whenFalse => [condition, whenTrue, whenFalse]
  | swizzle operand _ => [operand]
  | member operand _ => [operand]
  | index operand position => [operand, position]
  | assignment target value => [target, value]
  | declaration _ _ value => [value]
  | result value => [value]
  | function _ _ _ body => body
  | block _ statements => statements
  | reference _ => []

/-- The second node stands somewhere in the tree of the first. -/
inductive Contains : Node → Node → Prop
  | self (node : Node) : Contains node node
  | inside {node child inner : Node} (hchild : child ∈ node.children)
      (hinner : Contains child inner) : Contains node inner

theorem Contains.trans {node inner innermost : Node} (houter : node.Contains inner)
    (hinner : inner.Contains innermost) : node.Contains innermost := by
  induction houter with
  | self => exact hinner
  | inside hchild _ ih => exact .inside hchild (ih hinner)

theorem contains_iff_children {node inner : Node} (hdifferent : node ≠ inner) :
    node.Contains inner ↔ ∃ child ∈ node.children, child.Contains inner := by
  constructor
  · intro hcontains
    cases hcontains with
    | self => exact absurd rfl hdifferent
    | inside hchild hinner => exact ⟨_, hchild, hinner⟩
  · rintro ⟨child, hchild, hinner⟩
    exact .inside hchild hinner

/-- A tree calls a function if there is a call of that name inside it. -/
def Calls (node : Node) (name : String) : Prop :=
  ∃ arguments, node.Contains (call name arguments)

theorem calls_iff_children {node : Node} (hcall : node.calledName? = none) {name : String} :
    node.Calls name ↔ ∃ child ∈ node.children, child.Calls name := by
  have hdifferent : ∀ arguments, node ≠ call name arguments := by
    rintro arguments rfl
    cases hcall
  constructor
  · rintro ⟨arguments, hcontains⟩
    obtain ⟨child, hchild, hinner⟩ := (contains_iff_children (hdifferent arguments)).mp hcontains
    exact ⟨child, hchild, arguments, hinner⟩
  · rintro ⟨child, hchild, arguments, hinner⟩
    exact ⟨arguments, .inside hchild hinner⟩

/-- A tree without nodes held by reference. -/
def Known (node : Node) : Prop :=
  ∀ target, ¬ node.Contains (reference target)

theorem sizeOf_lt_of_mem_children {node child : Node} (hchild : child ∈ node.children) :
    sizeOf child < sizeOf node := by
  cases node with
  | call name arguments =>
      have hlt : sizeOf child < sizeOf arguments := List.sizeOf_lt_of_mem hchild
      simp only [call.sizeOf_spec]
      omega
  | function name returnType parameters body =>
      have hlt : sizeOf child < sizeOf body := List.sizeOf_lt_of_mem hchild
      simp only [function.sizeOf_spec]
      omega
  | block name statements =>
      have hlt : sizeOf child < sizeOf statements := List.sizeOf_lt_of_mem hchild
      simp only [block.sizeOf_spec]
      omega
  | absent | literal | identifier | reference => cases hchild
  | binary | unary | conditional | swizzle | member | index | assignment | declaration | result =>
      simp only [children, List.mem_cons, List.not_mem_nil, or_false] at hchild
      rcases hchild with rfl | rfl | rfl <;> simp <;> omega

theorem preorder_eq {node : Node} (hpresent : node ≠ absent) :
    node.preorder = node :: preorderAll node.children := by
  cases node with
  | absent => exact absurd rfl hpresent
  | _ => simp [preorder, preorderAll, children]

theorem mem_preorderAll {nodes : List Node} {inner : Node} :
    inner ∈ preorderAll nodes ↔ ∃ node ∈ nodes, inner ∈ node.preorder := by
  induction nodes with
  | nil => simp [preorderAll]
  | cons node rest ih => simp [preorderAll, ih]

theorem contains_of_mem_preorder {node inner : Node} (hmember : inner ∈ node.preorder) :
    node.Contains inner := by
  by_cases habsent : node = absent
  · subst habsent
    simp [preorder] at hmember
  · rw [preorder_eq habsent] at hmember
    rcases List.mem_cons.mp hmember with rfl | hbelow
    · exact .self _
    · obtain ⟨child, hchild, hinner⟩ := mem_preorderAll.mp hbelow
      have hsmaller := sizeOf_lt_of_mem_children hchild
      exact .inside hchild (contains_of_mem_preorder hinner)
termination_by sizeOf node

theorem mem_preorder_of_contains {node inner : Node} (hcontains : node.Contains inner)
    (hpresent : inner ≠ absent) : inner ∈ node.preorder := by
  induction hcontains with
  | self node =>
      rw [preorder_eq hpresent]
      exact List.mem_cons_self
  | @inside node child inner hchild _ ih =>
      have hnode : node ≠ absent := by
        rintro rfl
        cases hchild
      rw [preorder_eq hnode]
      exact List.mem_cons_of_mem _ (mem_preorderAll.mpr ⟨child, hchild, ih hpresent⟩)

theorem calls_iff_mem_preorder {node : Node} {name : String} :
    node.Calls name ↔ ∃ inner ∈ node.preorder, inner.calledName? = some name := by
  constructor
  · rintro ⟨arguments, hcontains⟩
    exact ⟨_, mem_preorder_of_contains hcontains (by simp), rfl⟩
  · rintro ⟨inner, hmember, hname⟩
    cases inner with
    | call function arguments =>
        cases hname
        exact ⟨arguments, contains_of_mem_preorder hmember⟩
    | _ => cases hname

instance (node : Node) (name : String) : Decidable (node.Calls name) :=
  decidable_of_iff _ calls_iff_mem_preorder.symm

theorem unknown?_eq_none {node : Node} : node.unknown? = none ↔ node.Known := by
  unfold unknown? Known
  rw [Option.map_eq_none_iff, List.find?_eq_none]
  constructor
  · intro hnone target hcontains
    exact hnone _ (mem_preorder_of_contains hcontains (by simp)) rfl
  · intro hknown inner hmember hreference
    cases inner with
    | reference target => exact hknown target (contains_of_mem_preorder hmember)
    | _ => cases hreference

end Node

theorem Definition.calls_iff {definition : Definition} {name : String} :
    definition.toNode.Calls name ↔ ∃ statement ∈ definition.body, statement.Calls name :=
  Node.calls_iff_children rfl

end NoiseShader
