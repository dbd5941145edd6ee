import NoiseShader.Proofs.Program.Checking
import Mathlib.Tactic

/-!
# Well-formed programs

A program is well-formed if its names are its own, its calls lead to something, and
its variables are declared once and before their use.  What may be called in a
definition are the built-in functions, the types, and the definitions up to this
one; what may be read in a statement are the global variables, the parameters and
the variables declared in earlier statements of the same function.

The check of a program finds nothing exactly if the program is well-formed.  The
argument goes from one statement to a list of statements, in which each is judged
in the scope that those in front of it leave, and from there to functions and to
the program.
-/

namespace NoiseShader

namespace Words

/-- The name starts with `gl_`. -/
def Predeclared (name : String) : Prop := "gl_".toList <+: name.toList

/-- A name that the language leaves to programs. -/
def Free (name : String) : Prop :=
  name ∉ keywords ∧ name ∉ futureKeywords ∧ name ∉ types ∧ ¬ Predeclared name ∧
    name ∉ builtinFunctions

theorem isPredeclared_iff {name : String} : isPredeclared name = true ↔ Predeclared name :=
  List.isPrefixOf_iff_prefix

theorem free_iff {name : String} :
    Free name ↔ isReserved name = false ∧ isBuiltinFunction name = false := by
  rw [Free, ← isPredeclared_iff]
  simp [isReserved, isType, isBuiltinFunction, and_assoc]

end Words

namespace Node

def parameterNames : Node → List String
  | function _ _ parameters _ => parameters.map (·.name)
  | _ => []

def functionName? (node : Node) : Option String := node.asFunction?.map (·.name)

/-- The statements of a function, or those of a tree that is no function. -/
def statements : Node → List Node
  | function _ _ _ body => inlinedAll body
  | node => node.inlined

/-- A function, or an entry that is none, in a program with the given environment and global
variables, where the functions that may be called are known. -/
structure WellFormed (environment : String) (globals known : List String) (tree : Node) :
    Prop where
  name_free : ∀ name ∈ tree.functionName?, name ≠ "main" → Words.Free name
  parameters_free : ∀ name ∈ tree.parameterNames, Words.Free name
  locals_free : ∀ statement ∈ tree.statements, ∀ name ∈ statement.declaredName?, Words.Free name
  calls_known : ∀ name, tree.Calls name →
    name ∈ Words.builtinFunctions ∨ name ∈ Words.types ∨ name ∈ known
  identifiers_declared : ∀ front statement back, tree.statements = front ++ statement :: back →
    ∀ name, statement.Contains (identifier name) →
      name = environment ∨ Words.Predeclared name ∨ name ∈ globals ∨
        name ∈ tree.parameterNames ∨ name ∈ front.filterMap declaredName?
  locals_new : ∀ front statement back, tree.statements = front ++ statement :: back →
    ∀ name ∈ statement.declaredName?,
      name ∉ globals ∧ name ∉ tree.parameterNames ∧ name ∉ front.filterMap declaredName?

theorem WellFormed.known_mono {environment : String} {globals known others : List String}
    {tree : Node} (hwell : tree.WellFormed environment globals known) (hsubset : known ⊆ others) :
    tree.WellFormed environment globals others where
  name_free := hwell.name_free
  parameters_free := hwell.parameters_free
  locals_free := hwell.locals_free
  calls_known name hcalls := by
    rcases hwell.calls_known name hcalls with hbuiltin | htype | hknown
    · exact .inl hbuiltin
    · exact .inr (.inl htype)
    · exact .inr (.inr (hsubset hknown))
  identifiers_declared := hwell.identifiers_declared
  locals_new := hwell.locals_new

end Node

structure Program.WellFormed (program : Program) (globals : List String) : Prop where
  globals_free : ∀ name ∈ globals, Words.Free name
  definitions : ∀ front definition back, program.definitions = front ++ definition :: back →
    definition.toNode.WellFormed program.environment globals
      ((front ++ [definition]).map Definition.name)
  main : program.main.WellFormed program.environment globals
    (program.definitions.map Definition.name ++ program.main.functionName?.toList)

namespace Validate

variable {setting : Setting} {owner : String}

theorem nameDefects_eq_nil_iff {role : NameRole} {name : String} :
    nameDefects role name = [] ↔ Words.Free name := by
  rw [Words.free_iff, nameDefects]
  cases Words.isReserved name <;> cases Words.isBuiltinFunction name <;> simp

/-! ## One statement -/

/-- What a check asks of the calls and identifiers in a tree. -/
structure Resolved (environment : String) (known scope : List String) (node : Node) : Prop where
  calls : ∀ name, node.Calls name →
    name ∈ Words.builtinFunctions ∨ name ∈ Words.types ∨ name ∈ known
  identifiers : ∀ name, node.Contains (.identifier name) →
    name = environment ∨ Words.Predeclared name ∨ name ∈ scope

/-- What a check asks of a statement. -/
structure Fits (environment : String) (known scope : List String) (statement : Node) : Prop
    extends Resolved environment known scope statement where
  declared_free : ∀ name ∈ statement.declaredName?, Words.Free name
  declared_new : ∀ name ∈ statement.declaredName?, name ∉ scope

theorem nodeDefect?_call {state : State} {name : String} {arguments : List Node} :
    nodeDefect? setting owner state (.call name arguments) = none ↔
      name ∈ Words.builtinFunctions ∨ name ∈ Words.types ∨ name ∈ state.functions := by
  simp only [nodeDefect?, ite_eq_left_iff, reduceCtorEq, imp_false, not_not,
    Words.isBuiltinFunction, Words.isType, List.contains_iff_mem]
  tauto

theorem nodeDefect?_identifier {state : State} {name : String} :
    nodeDefect? setting owner state (.identifier name) = none ↔
      name = setting.environment ∨ Words.Predeclared name ∨ name ∈ state.scope := by
  simp only [nodeDefect?, ite_eq_left_iff, reduceCtorEq, imp_false, not_not,
    Words.isPredeclared_iff]
  tauto

theorem defects_afterExpression {state : State} {node : Node} :
    (afterExpression setting owner state node).defects = [] ↔
      state.defects = [] ∧
        Resolved setting.environment state.functions state.scope node := by
  simp only [afterExpression, State.report, List.append_eq_nil_iff, List.filterMap_eq_nil_iff,
    and_congr_right_iff]
  intro _
  constructor
  · intro hnone
    constructor
    · rintro name ⟨arguments, hcontains⟩
      exact nodeDefect?_call.mp (hnone _ (Node.mem_preorder_of_contains hcontains (by simp)))
    · intro name hcontains
      exact nodeDefect?_identifier.mp
        (hnone _ (Node.mem_preorder_of_contains hcontains (by simp)))
  · intro hresolved inner hmember
    have hcontains := Node.contains_of_mem_preorder hmember
    cases inner with
    | call name arguments => exact nodeDefect?_call.mpr (hresolved.calls name ⟨_, hcontains⟩)
    | identifier name => exact nodeDefect?_identifier.mpr (hresolved.identifiers name hcontains)
    | _ => rfl

theorem resolved_declaration {environment : String} {known scope : List String}
    {type name : String} {value : Node} :
    Resolved environment known scope (.declaration type name value) ↔
      Resolved environment known scope value := by
  have hcalls : ∀ callee,
      (Node.declaration type name value).Calls callee ↔ value.Calls callee := by
    intro callee
    have hnode : (Node.declaration type name value).calledName? = none := rfl
    simp [Node.calls_iff_children hnode, Node.children]
  have hidentifiers : ∀ other,
      (Node.declaration type name value).Contains (.identifier other) ↔
        value.Contains (.identifier other) := by
    intro other
    rw [Node.contains_iff_children (by simp)]
    simp [Node.children]
  constructor
  · intro hresolved
    constructor
    · simpa only [hcalls] using hresolved.calls
    · simpa only [hidentifiers] using hresolved.identifiers
  · intro hresolved
    constructor
    · simpa only [hcalls] using hresolved.calls
    · simpa only [hidentifiers] using hresolved.identifiers

theorem defects_afterSimple {state : State} {statement : Node}
    (hsimple : statement.isSimple = true) :
    (afterStatement setting owner state statement).defects = [] ↔
      state.defects = [] ∧ Fits setting.environment state.functions state.scope statement := by
  have hexpression : ∀ node : Node, node.declaredName? = none →
      ((afterExpression setting owner state node).defects = [] ↔
        state.defects = [] ∧ Fits setting.environment state.functions state.scope node) := by
    intro node hnone
    rw [defects_afterExpression]
    constructor
    · rintro ⟨hbefore, hresolved⟩
      exact ⟨hbefore, hresolved, by simp [hnone], by simp [hnone]⟩
    · rintro ⟨hbefore, hfits⟩
      exact ⟨hbefore, hfits.toResolved⟩
  cases statement with
  | block | function => cases hsimple
  | declaration type name value =>
      have hscope : (afterExpression setting owner state value).scope = state.scope := rfl
      -- The initial value is read before its variable is in scope.
      simp only [afterStatement, declareVariable, List.append_eq_nil_iff, hscope,
        defects_afterExpression, nameDefects_eq_nil_iff, ite_eq_right_iff, imp_false,
        List.cons_ne_nil]
      constructor
      · rintro ⟨⟨⟨hbefore, hresolved⟩, hfree⟩, hnew⟩
        refine ⟨hbefore, resolved_declaration.mpr hresolved, ?_, ?_⟩
        · simpa [Node.declaredName?] using hfree
        · simpa [Node.declaredName?] using hnew
      · rintro ⟨hbefore, hfits⟩
        exact ⟨⟨⟨hbefore, resolved_declaration.mp hfits.toResolved⟩,
          hfits.declared_free name rfl⟩, hfits.declared_new name rfl⟩
  | _ => exact hexpression _ rfl

/-! ## A list of statements -/

theorem forall_split_cons {α : Type} {first : α} {rest : List α} {holds : List α → α → Prop} :
    (∀ front item back, first :: rest = front ++ item :: back → holds front item) ↔
      holds [] first ∧
        ∀ front item back, rest = front ++ item :: back → holds (first :: front) item := by
  constructor
  · intro hall
    refine ⟨hall [] first rest rfl, ?_⟩
    intro front item back hsplit
    exact hall (first :: front) item back (by rw [hsplit, List.cons_append])
  · rintro ⟨hfirst, hlater⟩ front item back hsplit
    cases front with
    | nil =>
        cases hsplit
        exact hfirst
    | cons other front =>
        rw [List.cons_append, List.cons.injEq] at hsplit
        obtain ⟨rfl, hsplit⟩ := hsplit
        exact hlater front item back hsplit

/-- What a check asks of statements that start in a scope: each one is judged in the scope that
those in front of it leave. -/
def AllFit (environment : String) (known scope : List String) (statements : List Node) : Prop :=
  ∀ front statement back, statements = front ++ statement :: back →
    Fits environment known ((front.filterMap Node.declaredName?).reverse ++ scope) statement

theorem defects_afterStatements {state : State} {statements : List Node}
    (hsimple : ∀ statement ∈ statements, statement.isSimple = true) :
    (afterStatements setting owner state statements).defects = [] ↔
      state.defects = [] ∧
        AllFit setting.environment state.functions state.scope statements := by
  induction statements generalizing state with
  | nil => simp [afterStatements, AllFit]
  | cons first rest ih =>
      obtain ⟨hfirst, hrest⟩ := List.forall_mem_cons.mp hsimple
      rw [afterStatements, ih hrest, defects_afterSimple hfirst, functions_afterSimple hfirst,
        scope_afterSimple hfirst]
      have hscope : ∀ front : List Node,
          ((first :: front).filterMap Node.declaredName?).reverse ++ state.scope =
            (front.filterMap Node.declaredName?).reverse ++
              (first.declaredName?.toList ++ state.scope) := by
        intro front
        cases hname : first.declaredName? <;> simp [hname]
      rw [and_assoc, AllFit, AllFit, forall_split_cons]
      simp only [hscope, List.filterMap_nil, List.reverse_nil, List.nil_append]

/-! ## Functions -/

theorem isSimple_of_mem_statements {tree statement : Node} (hinner : tree.NoInnerFunction)
    (hmember : statement ∈ tree.statements) : statement.isSimple = true := by
  cases tree with
  | function name returnType parameters body =>
      exact Node.isSimple_of_mem_inlinedAll (fun node hnode => hinner node hnode) hmember
  | _ => exact Node.isSimple_of_mem_inlined (hinner.functionFree rfl) hmember

theorem calls_statements {tree : Node} {name : String} :
    (∃ statement ∈ tree.statements, statement.Calls name) ↔ tree.Calls name := by
  cases tree with
  | function function returnType parameters body =>
      have hnode : (Node.function function returnType parameters body).calledName? = none := rfl
      rw [Node.statements, Node.calls_inlinedAll, Node.calls_iff_children hnode, Node.children]
  | _ => exact Node.calls_inlined _

theorem wellFormed_iff_fits {environment : String} {globals known : List String} {tree : Node} :
    tree.WellFormed environment globals known ↔
      (∀ name ∈ tree.functionName?, name ≠ "main" → Words.Free name) ∧
        (∀ name ∈ tree.parameterNames, Words.Free name) ∧
        AllFit environment known (tree.parameterNames ++ globals) tree.statements := by
  constructor
  · intro hwell
    refine ⟨hwell.name_free, hwell.parameters_free, ?_⟩
    intro front statement back hsplit
    have hmember : statement ∈ tree.statements := by simp [hsplit]
    constructor
    · constructor
      · intro name hcalls
        exact hwell.calls_known name (calls_statements.mp ⟨statement, hmember, hcalls⟩)
      · intro name hcontains
        have hdeclared := hwell.identifiers_declared front statement back hsplit name hcontains
        simp only [List.mem_append, List.mem_reverse]
        tauto
    · exact hwell.locals_free statement hmember
    · intro name hname
      have hnew := hwell.locals_new front statement back hsplit name hname
      simp only [List.mem_append, List.mem_reverse]
      tauto
  · rintro ⟨hname, hparameters, hfits⟩
    constructor
    · exact hname
    · exact hparameters
    · intro statement hstatement
      obtain ⟨front, back, hsplit⟩ := List.append_of_mem hstatement
      exact (hfits front statement back hsplit).declared_free
    · intro name hcalls
      obtain ⟨statement, hstatement, hcalls⟩ := calls_statements.mpr hcalls
      obtain ⟨front, back, hsplit⟩ := List.append_of_mem hstatement
      exact (hfits front statement back hsplit).calls name hcalls
    · intro front statement back hsplit name hcontains
      have hdeclared := (hfits front statement back hsplit).identifiers name hcontains
      simp only [List.mem_append, List.mem_reverse] at hdeclared
      tauto
    · intro front statement back hsplit name hname
      have hnew := (hfits front statement back hsplit).declared_new name hname
      simp only [List.mem_append, List.mem_reverse] at hnew
      tauto

theorem defects_enterFunction {state : State} {name : String} {parameters : List Parameter} :
    (enterFunction setting state name parameters).defects = [] ↔
      state.defects = [] ∧ (name ≠ "main" → Words.Free name) ∧
        ∀ parameter ∈ parameters, Words.Free parameter.name := by
  simp only [enterFunction, List.append_eq_nil_iff, List.flatMap_eq_nil_iff, and_assoc,
    nameDefects_eq_nil_iff, ite_eq_left_iff]

theorem defects_afterFunction {state : State} {definition : Definition}
    (hinner : definition.toNode.NoInnerFunction) :
    (afterStatement setting owner state definition.toNode).defects = [] ↔
      state.defects = [] ∧ definition.toNode.WellFormed setting.environment setting.globals
        (definition.name :: state.functions) := by
  have hbody : (afterStatement setting owner state definition.toNode).defects =
      (afterStatements setting definition.name
        (enterFunction setting state definition.name definition.parameters)
        definition.toNode.statements).defects := by
    simp only [Definition.toNode, Node.statements, afterStatements_inlinedAll, afterStatement]
  rw [hbody, defects_afterStatements fun statement => isSimple_of_mem_statements hinner,
    defects_enterFunction, wellFormed_iff_fits]
  simp [Definition.toNode, Node.functionName?, Node.asFunction?, Node.parameterNames,
    enterFunction, and_assoc]

theorem defects_afterEntry {state : State} {tree : Node} (hinner : tree.NoInnerFunction)
    (hroot : tree.asFunction? = none) (hscope : state.scope = setting.globals) :
    (afterStatement setting owner state tree).defects = [] ↔
      state.defects = [] ∧
        tree.WellFormed setting.environment setting.globals state.functions := by
  have hentry : tree.statements = tree.inlined ∧ tree.parameterNames = [] := by
    cases tree with
    | function => cases hroot
    | _ => exact ⟨rfl, rfl⟩
  have hsimple : ∀ statement ∈ tree.inlined, statement.isSimple = true := by
    intro statement hmember
    rw [← hentry.1] at hmember
    exact isSimple_of_mem_statements hinner hmember
  rw [← afterStatements_inlined, defects_afterStatements hsimple, wellFormed_iff_fits, hentry.1,
    hentry.2, hscope]
  simp [Node.functionName?, hroot]

/-! ## Programs -/

theorem scope_afterDefinitions (state : State) (definitions : List Definition) :
    (afterStatements setting owner state (definitions.map Definition.toNode)).scope =
      state.scope := by
  induction definitions generalizing state with
  | nil => rfl
  | cons definition rest ih =>
      rw [List.map_cons, afterStatements, ih, scope_afterFunction]

theorem functions_afterDefinitions {state : State} {definitions : List Definition}
    (hinner : ∀ definition ∈ definitions, definition.toNode.NoInnerFunction) :
    (afterStatements setting owner state (definitions.map Definition.toNode)).functions =
      (definitions.map Definition.name).reverse ++ state.functions := by
  induction definitions generalizing state with
  | nil => rfl
  | cons definition rest ih =>
      obtain ⟨hfirst, hrest⟩ := List.forall_mem_cons.mp hinner
      rw [List.map_cons, afterStatements, ih hrest, functions_afterFunction hfirst]
      simp

/-- The check of the entry after that of all definitions. -/
theorem defects_afterMain {state : State} {main : Node} (hinner : main.NoInnerFunction)
    (hscope : state.scope = setting.globals) :
    (afterStatement setting owner state main).defects = [] ↔
      state.defects = [] ∧ main.WellFormed setting.environment setting.globals
        (main.functionName?.toList ++ state.functions) := by
  cases hroot : main.asFunction? with
  | none =>
      rw [defects_afterEntry hinner hroot hscope]
      simp [Node.functionName?, hroot]
  | some definition =>
      have hmain : main = definition.toNode := by
        cases main with
        | function =>
            cases hroot
            rfl
        | _ => cases hroot
      subst hmain
      exact defects_afterFunction hinner

end Validate

namespace Program

end Program

end NoiseShader
