import NoiseShader.Program.Validate
import NoiseShader.Proofs.Syntax.Containment

/-!
# Checking a list of statements

A check goes through the statements one by one.  Blocks leave no trace in it: a
list of statements is checked as if the statements of each block stood in its
place.  Unless there is a function among them, statements change nothing but the
scope, to which a declaration adds its variable, and the defects.
-/

namespace NoiseShader

namespace Node

/-- There is no function anywhere in the tree. -/
def FunctionFree (node : Node) : Prop :=
  ∀ name returnType parameters body, ¬ node.Contains (function name returnType parameters body)

/-- There is no function in the tree below its root. -/
def NoInnerFunction (node : Node) : Prop := ∀ child ∈ node.children, child.FunctionFree

theorem functionFree_iff {node : Node} :
    node.FunctionFree ↔ ∀ inner ∈ node.preorder, inner.asFunction? = none := by
  constructor
  · intro hfree inner hmember
    cases inner with
    | function name returnType parameters body =>
        exact absurd (contains_of_mem_preorder hmember) (hfree name returnType parameters body)
    | _ => rfl
  · intro hnone name returnType parameters body hcontains
    have hmember := mem_preorder_of_contains hcontains (by simp)
    cases hnone _ hmember

instance (node : Node) : Decidable node.FunctionFree :=
  decidable_of_iff (node.preorder.all (·.asFunction?.isNone) = true) (by
    simp [functionFree_iff])

instance (node : Node) : Decidable node.NoInnerFunction :=
  inferInstanceAs (Decidable (∀ child ∈ node.children, child.FunctionFree))

theorem FunctionFree.child {node child : Node} (hfree : node.FunctionFree)
    (hchild : child ∈ node.children) : child.FunctionFree := by
  intro name returnType parameters body hcontains
  exact hfree name returnType parameters body (.inside hchild hcontains)

theorem NoInnerFunction.functionFree {node : Node} (hinner : node.NoInnerFunction)
    (hroot : node.asFunction? = none) : node.FunctionFree := by
  intro name returnType parameters body hcontains
  cases hcontains with
  | self => cases hroot
  | inside hchild hcontains => exact hinner _ hchild name returnType parameters body hcontains

/-! ## Statements without blocks -/

mutual

/-- The statements of a node, with those of nested blocks in their places. -/
def inlined : Node → List Node
  | block _ statements => inlinedAll statements
  | node => [node]

def inlinedAll : List Node → List Node
  | [] => []
  | node :: rest => inlined node ++ inlinedAll rest

end

/-- Whether a statement is neither a block nor a function. -/
def isSimple : Node → Bool
  | block _ _ => false
  | function _ _ _ _ => false
  | _ => true

mutual

theorem isSimple_of_mem_inlined {node statement : Node} (hfree : node.FunctionFree)
    (hmember : statement ∈ node.inlined) : statement.isSimple = true := by
  cases node with
  | block name statements =>
      rw [inlined] at hmember
      exact isSimple_of_mem_inlinedAll (fun child hchild => hfree.child hchild) hmember
  | function name returnType parameters body =>
      exact absurd (.self _) (hfree name returnType parameters body)
  | _ =>
      simp only [inlined, List.mem_singleton] at hmember
      subst hmember
      rfl

theorem isSimple_of_mem_inlinedAll {nodes : List Node} {statement : Node}
    (hfree : ∀ node ∈ nodes, node.FunctionFree) (hmember : statement ∈ inlinedAll nodes) :
    statement.isSimple = true := by
  cases nodes with
  | nil => simp [inlinedAll] at hmember
  | cons node rest =>
      rw [inlinedAll, List.mem_append] at hmember
      rcases hmember with hfirst | hrest
      · exact isSimple_of_mem_inlined (hfree node List.mem_cons_self) hfirst
      · exact isSimple_of_mem_inlinedAll
          (fun other hother => hfree other (List.mem_cons_of_mem _ hother)) hrest

end

mutual

theorem calls_inlined {name : String} (node : Node) :
    (∃ statement ∈ node.inlined, statement.Calls name) ↔ node.Calls name := by
  cases node with
  | block label statements =>
      have hblock : (block label statements).calledName? = none := rfl
      rw [inlined, calls_inlinedAll statements, calls_iff_children hblock, children]
  | _ => simp [inlined]

theorem calls_inlinedAll {name : String} (nodes : List Node) :
    (∃ statement ∈ inlinedAll nodes, statement.Calls name) ↔ ∃ node ∈ nodes, node.Calls name := by
  cases nodes with
  | nil => simp [inlinedAll]
  | cons node rest =>
      simp only [inlinedAll, List.mem_append, List.exists_mem_cons_iff, or_and_right, exists_or,
        calls_inlined node, calls_inlinedAll rest]

end

/-- The variable that a statement declares. -/
def declaredName? : Node → Option String
  | declaration _ name _ => some name
  | _ => none

end Node

namespace Validate

variable (setting : Setting) (owner : String)

theorem afterStatements_append (state : State) (front back : List Node) :
    afterStatements setting owner state (front ++ back) =
      afterStatements setting owner (afterStatements setting owner state front) back := by
  induction front generalizing state with
  | nil => simp [afterStatements]
  | cons statement rest ih => simp [afterStatements, ih]

mutual

theorem afterStatements_inlined (state : State) (node : Node) :
    afterStatements setting owner state node.inlined =
      afterStatement setting owner state node := by
  cases node with
  | block name statements =>
      rw [Node.inlined, afterStatement, afterStatements_inlinedAll state statements]
  | _ => simp [Node.inlined, afterStatements]

theorem afterStatements_inlinedAll (state : State) (nodes : List Node) :
    afterStatements setting owner state (Node.inlinedAll nodes) =
      afterStatements setting owner state nodes := by
  cases nodes with
  | nil => rw [Node.inlinedAll]
  | cons node rest =>
      rw [Node.inlinedAll, afterStatements_append, afterStatements_inlined state node,
        afterStatements_inlinedAll _ rest, afterStatements]

end

variable {setting owner}

theorem functions_afterSimple {state : State} {statement : Node}
    (hsimple : statement.isSimple = true) :
    (afterStatement setting owner state statement).functions = state.functions := by
  cases statement with
  | block | function => cases hsimple
  | _ => rfl

theorem scope_afterSimple {state : State} {statement : Node}
    (hsimple : statement.isSimple = true) :
    (afterStatement setting owner state statement).scope =
      statement.declaredName?.toList ++ state.scope := by
  cases statement with
  | block | function => cases hsimple
  | _ => rfl

theorem functions_afterStatements {state : State} {statements : List Node}
    (hsimple : ∀ statement ∈ statements, statement.isSimple = true) :
    (afterStatements setting owner state statements).functions = state.functions := by
  induction statements generalizing state with
  | nil => rfl
  | cons statement rest ih =>
      obtain ⟨hfirst, hrest⟩ := List.forall_mem_cons.mp hsimple
      rw [afterStatements, ih hrest, functions_afterSimple hfirst]

theorem scope_afterFunction (state : State) (definition : Definition) :
    (afterStatement setting owner state definition.toNode).scope = state.scope := by
  simp only [Definition.toNode, afterStatement]

theorem functions_afterFunction {state : State} {definition : Definition}
    (hinner : definition.toNode.NoInnerFunction) :
    (afterStatement setting owner state definition.toNode).functions =
      definition.name :: state.functions := by
  have hbody : (afterStatements setting definition.name
      (enterFunction setting state definition.name definition.parameters)
      definition.body).functions = definition.name :: state.functions := by
    rw [← afterStatements_inlinedAll]
    exact functions_afterStatements fun statement hmember =>
      Node.isSimple_of_mem_inlinedAll hinner hmember
  simpa only [Definition.toNode, afterStatement] using hbody

end Validate

end NoiseShader
