import NoiseShader.Syntax.Node

/-!
# Definitions reached through calls

A definition is reached from a tree when the tree, or the body of a reached
definition, calls it by name.  The search keeps a stack of trees to inspect and
the definitions that no inspected tree has called yet.  A call moves its
definition from the second to the first, so every round shortens the two lists
together by one, and their length at the start bounds the number of rounds.

Of several definitions with one name only the last can be called.
-/

namespace NoiseShader

/-- The names called in a tree, in the order of its nodes. -/
def Node.callees (node : Node) : Except UnknownNode (List String) :=
  match node.unknown? with
  | some e => .error e
  | none => .ok (node.preorder.filterMap Node.calledName?)

namespace Reachable

/-- The definitions that no later one of the same name hides. -/
def visible : List Definition → List Definition
  | [] => []
  | definition :: rest =>
    if rest.any (·.name == definition.name) then visible rest
    else definition :: visible rest

/-- Puts the uncalled definitions with the given names on the stack. -/
def enlist (uncalled : List Definition) (pending : List Node) :
    List String → List Definition × List Node
  | [] => (uncalled, pending)
  | name :: rest =>
    match uncalled.find? (·.name == name) with
    | some definition =>
      enlist (uncalled.eraseP (·.name == name)) (definition.toNode :: pending) rest
    | none => enlist uncalled pending rest

/-- The definitions still uncalled after every pending tree was inspected. -/
def search : (rounds : Nat) → (uncalled : List Definition) → (pending : List Node) →
    Except UnknownNode (List Definition)
  | _, uncalled, [] => .ok uncalled
  | 0, uncalled, _ :: _ => .ok uncalled
  | rounds + 1, uncalled, node :: pending =>
    match node.callees with
    | .error e => .error e
    | .ok names =>
      let (stillUncalled, stillPending) := enlist uncalled pending names
      search rounds stillUncalled stillPending

end Reachable

/-- The definitions reached from the roots, in their own order.  The last root is
inspected first. -/
def reachable (definitions : List Definition) (roots : List Node) :
    Except UnknownNode (List Definition) := do
  let candidates := Reachable.visible definitions
  let uncalled ← Reachable.search (candidates.length + roots.length) candidates roots.reverse
  return candidates.filter fun definition => !uncalled.any (·.name == definition.name)

end NoiseShader
