import NoiseShader.Proofs.Program.WellFormed
import Mathlib.Tactic

/-!
# Calls that lead nowhere

A call leads to a built-in function, to a type, or to a function that is known at
the place of the call.  The check of a list of definitions reports exactly the
calls that do none of this, under the name of the definition in which they stand:
where a definition is checked, the known functions are those in front of it and
the definition itself.
-/

namespace NoiseShader.Validate

variable {setting : Setting} {owner : String}

/-- A name that may be called where some functions are known. -/
def Callable (known : List String) (name : String) : Prop :=
  name ∈ Words.builtinFunctions ∨ name ∈ Words.types ∨ name ∈ known

theorem callable_congr {known others : List String} {name : String}
    (hsame : name ∈ known ↔ name ∈ others) : Callable known name ↔ Callable others name := by
  rw [Callable, Callable, hsame]

theorem undefinedCall_notMem_nameDefects {role : NameRole} {name function callee : String} :
    Defect.undefinedCall function callee ∉ nameDefects role name := by
  unfold nameDefects
  split_ifs <;> simp

theorem nodeDefect?_eq_undefinedCall {state : State} {node : Node} {function callee : String} :
    nodeDefect? setting owner state node = some (.undefinedCall function callee) ↔
      function = owner ∧ node.calledName? = some callee ∧ ¬ Callable state.functions callee := by
  cases node with
  | call name arguments =>
      have hcallable : (Words.isBuiltinFunction name ∨ name ∈ state.functions ∨
          Words.isType name) ↔ Callable state.functions name := by
        simp only [Callable, Words.isBuiltinFunction, Words.isType, List.contains_iff_mem]
        tauto
      simp only [nodeDefect?, Node.calledName?, Option.some.injEq]
      split_ifs with hknown
      · rw [hcallable] at hknown
        constructor
        · intro hsome
          cases hsome
        · rintro ⟨-, rfl, hunknown⟩
          exact absurd hknown hunknown
      · rw [hcallable] at hknown
        rw [Option.some.injEq, Defect.undefinedCall.injEq]
        constructor
        · rintro ⟨rfl, rfl⟩
          exact ⟨rfl, rfl, hknown⟩
        · rintro ⟨rfl, rfl, -⟩
          exact ⟨rfl, rfl⟩
  | identifier name =>
      simp only [nodeDefect?, Node.calledName?]
      split_ifs <;> simp
  | _ => simp [nodeDefect?, Node.calledName?]

/-! ## Statements -/

theorem undefinedCall_afterExpression {state : State} {node : Node} {function callee : String} :
    Defect.undefinedCall function callee ∈ (afterExpression setting owner state node).defects ↔
      Defect.undefinedCall function callee ∈ state.defects ∨
        function = owner ∧ node.Calls callee ∧ ¬ Callable state.functions callee := by
  simp only [afterExpression, State.report, List.mem_append, List.mem_filterMap,
    nodeDefect?_eq_undefinedCall]
  rw [Node.calls_iff_mem_preorder]
  refine or_congr_right ?_
  constructor
  · rintro ⟨inner, hmember, hfunction, hcalled, hunknown⟩
    exact ⟨hfunction, ⟨inner, hmember, hcalled⟩, hunknown⟩
  · rintro ⟨hfunction, ⟨inner, hmember, hcalled⟩, hunknown⟩
    exact ⟨inner, hmember, hfunction, hcalled, hunknown⟩

theorem undefinedCall_afterSimple {state : State} {statement : Node} {function callee : String}
    (hsimple : statement.isSimple = true) :
    Defect.undefinedCall function callee ∈
        (afterStatement setting owner state statement).defects ↔
      Defect.undefinedCall function callee ∈ state.defects ∨
        function = owner ∧ statement.Calls callee ∧ ¬ Callable state.functions callee := by
  cases statement with
  | block | function => cases hsimple
  | declaration type name value =>
      have hcalls : (Node.declaration type name value).Calls callee ↔ value.Calls callee := by
        have hnode : (Node.declaration type name value).calledName? = none := rfl
        simp [Node.calls_iff_children hnode, Node.children]
      have hredeclared : Defect.undefinedCall function callee ∉
          if name ∈ (afterExpression setting owner state value).scope then
            [Defect.redeclared owner name] else [] := by
        split_ifs <;> simp
      simp only [afterStatement, declareVariable, List.mem_append,
        undefinedCall_notMem_nameDefects, hredeclared, or_false, hcalls,
        undefinedCall_afterExpression]
  | _ => exact undefinedCall_afterExpression

theorem undefinedCall_afterStatements {state : State} {statements : List Node}
    {function callee : String}
    (hsimple : ∀ statement ∈ statements, statement.isSimple = true) :
    Defect.undefinedCall function callee ∈
        (afterStatements setting owner state statements).defects ↔
      Defect.undefinedCall function callee ∈ state.defects ∨
        function = owner ∧ (∃ statement ∈ statements, statement.Calls callee) ∧
          ¬ Callable state.functions callee := by
  induction statements generalizing state with
  | nil => simp [afterStatements]
  | cons first rest ih =>
      obtain ⟨hfirst, hrest⟩ := List.forall_mem_cons.mp hsimple
      rw [afterStatements, ih hrest, undefinedCall_afterSimple hfirst,
        functions_afterSimple hfirst, List.exists_mem_cons_iff]
      tauto

/-! ## Definitions -/

theorem undefinedCall_afterFunction {state : State} {definition : Definition}
    {function callee : String} (hinner : definition.toNode.NoInnerFunction) :
    Defect.undefinedCall function callee ∈
        (afterStatement setting owner state definition.toNode).defects ↔
      Defect.undefinedCall function callee ∈ state.defects ∨
        function = definition.name ∧ definition.toNode.Calls callee ∧
          ¬ Callable (definition.name :: state.functions) callee := by
  have hbody : (afterStatement setting owner state definition.toNode).defects =
      (afterStatements setting definition.name
        (enterFunction setting state definition.name definition.parameters)
        definition.toNode.statements).defects := by
    simp only [Definition.toNode, Node.statements, afterStatements_inlinedAll, afterStatement]
  have hentered : Defect.undefinedCall function callee ∈
      (enterFunction setting state definition.name definition.parameters).defects ↔
        Defect.undefinedCall function callee ∈ state.defects := by
    have hname : Defect.undefinedCall function callee ∉
        if definition.name = "main" then [] else nameDefects .function definition.name := by
      split_ifs
      · simp
      · exact undefinedCall_notMem_nameDefects
    simp [enterFunction, hname, undefinedCall_notMem_nameDefects]
  rw [hbody, undefinedCall_afterStatements fun statement => isSimple_of_mem_statements hinner,
    hentered, calls_statements]
  rfl

theorem exists_split_cons {α : Type} {first : α} {rest : List α} {holds : List α → α → Prop} :
    (∃ front item back, first :: rest = front ++ item :: back ∧ holds front item) ↔
      holds [] first ∨ ∃ front item back, rest = front ++ item :: back ∧
        holds (first :: front) item := by
  constructor
  · rintro ⟨front, item, back, hsplit, hholds⟩
    cases front with
    | nil =>
        cases hsplit
        exact .inl hholds
    | cons other front =>
        rw [List.cons_append, List.cons.injEq] at hsplit
        obtain ⟨rfl, hsplit⟩ := hsplit
        exact .inr ⟨front, item, back, hsplit, hholds⟩
  · rintro (hfirst | ⟨front, item, back, hsplit, hholds⟩)
    · exact ⟨[], first, rest, rfl, hfirst⟩
    · exact ⟨first :: front, item, back, by rw [hsplit, List.cons_append], hholds⟩

/-- A list of definitions is checked with each one knowing those in front of it. -/
theorem undefinedCall_afterDefinitions {state : State} {definitions : List Definition}
    {function callee : String}
    (hinner : ∀ definition ∈ definitions, definition.toNode.NoInnerFunction) :
    Defect.undefinedCall function callee ∈
        (afterStatements setting owner state (definitions.map Definition.toNode)).defects ↔
      Defect.undefinedCall function callee ∈ state.defects ∨
        ∃ front definition back, definitions = front ++ definition :: back ∧
          function = definition.name ∧ definition.toNode.Calls callee ∧
            ¬ Callable ((front ++ [definition]).map Definition.name ++ state.functions) callee := by
  induction definitions generalizing state with
  | nil => simp [afterStatements]
  | cons first rest ih =>
      obtain ⟨hfirst, hrest⟩ := List.forall_mem_cons.mp hinner
      have hknown : ∀ (front : List Definition) (definition : Definition),
          Callable ((front ++ [definition]).map Definition.name ++ first.name :: state.functions)
              callee ↔
            Callable ((first :: front ++ [definition]).map Definition.name ++ state.functions)
              callee := by
        intro front definition
        apply callable_congr
        simp only [List.cons_append, List.map_cons, List.mem_cons, List.mem_append]
        tauto
      rw [List.map_cons, afterStatements, ih hrest, undefinedCall_afterFunction hfirst,
        functions_afterFunction hfirst, exists_split_cons, or_assoc]
      simp only [hknown]
      rfl

end NoiseShader.Validate

namespace NoiseShader.Program

/-- What a check reports of the calls in a program whose entry is a function. -/
theorem undefinedCall_mem_validate {definitions : List Definition} {main : Definition}
    (hinner : ∀ definition ∈ definitions ++ [main], definition.toNode.NoInnerFunction)
    (globals : List String) {function callee : String} :
    Defect.undefinedCall function callee ∈ (Program.mk definitions main.toNode).validate globals ↔
      ∃ front definition back, definitions ++ [main] = front ++ definition :: back ∧
        function = definition.name ∧ definition.toNode.Calls callee ∧
          ¬ Validate.Callable ((front ++ [definition]).map Definition.name) callee := by
  have htrees : (Program.mk definitions main.toNode).trees =
      (definitions ++ [main]).map Definition.toNode := by
    simp [trees]
  have hglobals : Defect.undefinedCall function callee ∉
      globals.flatMap (Validate.nameDefects .global) := by
    simp [Validate.undefinedCall_notMem_nameDefects]
  simp only [validate, htrees]
  rw [Validate.undefinedCall_afterDefinitions hinner]
  simp only [hglobals, false_or, List.append_nil]

end NoiseShader.Program
