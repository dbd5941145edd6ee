import NoiseShader.Proofs.Program.Checking
import NoiseShader.Proofs.Program.Closure
import NoiseShader.Proofs.Program.Creation

/-!
# Checking a pruned program

The check of a tree reads the known functions only where the tree calls one.  So
two checks of a tree find the same defects if they start in the same scope and
agree on the functions that the tree calls.

Pruning drops the definitions that nothing kept calls.  While the trees of a
program are checked in order, the functions known with and without the dropped
definitions agree on everything that a kept tree calls.  What is left of the
defects after pruning is therefore what the kept trees had before.
-/

namespace NoiseShader

namespace Validate

variable {setting : Setting} {owner : String} {called : String → Prop}

/-! ## Two checks side by side -/

/-- The same scope, and the same knowledge of the functions that are called. -/
structure Agree (called : String → Prop) (first second : State) : Prop where
  scope : first.scope = second.scope
  functions : ∀ name, called name → (name ∈ first.functions ↔ name ∈ second.functions)

/-- Two checks that add the same defects and end in agreement. -/
structure Alike (called : String → Prop) (first second firstNext secondNext : State) : Prop where
  defects : ∃ found, firstNext.defects = first.defects ++ found ∧
    secondNext.defects = second.defects ++ found
  agree : Agree called firstNext secondNext

theorem Agree.refl (state : State) : Agree called state state :=
  ⟨rfl, fun _ _ => Iff.rfl⟩

theorem Alike.trans {first second firstNext secondNext firstLast secondLast : State}
    (hfront : Alike called first second firstNext secondNext)
    (hback : Alike called firstNext secondNext firstLast secondLast) :
    Alike called first second firstLast secondLast := by
  obtain ⟨front, hfirst, hsecond⟩ := hfront.defects
  obtain ⟨back, hfirstNext, hsecondNext⟩ := hback.defects
  refine ⟨⟨front ++ back, ?_, ?_⟩, hback.agree⟩
  · rw [hfirstNext, hfirst, List.append_assoc]
  · rw [hsecondNext, hsecond, List.append_assoc]

section Step

variable {first second : State} (setting : Setting) (owner : String)

theorem Agree.nodeDefect?_eq (hagree : Agree called first second) {node : Node}
    (hcalls : ∀ name, node.Calls name → called name) :
    nodeDefect? setting owner first node = nodeDefect? setting owner second node := by
  cases node with
  | identifier name => simp only [nodeDefect?, hagree.scope]
  | call name arguments =>
      have hknown := hagree.functions name (hcalls name ⟨arguments, .self _⟩)
      simp only [nodeDefect?, hknown]
  | _ => rfl

theorem Agree.afterExpression (hagree : Agree called first second) {node : Node}
    (hcalls : ∀ name, node.Calls name → called name) :
    Alike called first second (afterExpression setting owner first node)
      (afterExpression setting owner second node) := by
  have hsame : node.preorder.filterMap (nodeDefect? setting owner first) =
      node.preorder.filterMap (nodeDefect? setting owner second) := by
    apply List.filterMap_congr
    intro inner hmember
    apply hagree.nodeDefect?_eq
    rintro name ⟨arguments, hcontains⟩
    exact hcalls name ⟨arguments, (Node.contains_of_mem_preorder hmember).trans hcontains⟩
  refine ⟨⟨node.preorder.filterMap (nodeDefect? setting owner first), rfl, ?_⟩,
    hagree.scope, hagree.functions⟩
  rw [hsame]
  rfl

theorem Agree.enterFunction (hagree : Agree called first second) (name : String)
    (parameters : List Parameter) :
    Alike called first second (enterFunction setting first name parameters)
      (enterFunction setting second name parameters) := by
  refine ⟨⟨_, List.append_assoc _ _ _, List.append_assoc _ _ _⟩, rfl, ?_⟩
  intro callee hcallee
  simp only [Validate.enterFunction, List.mem_cons, hagree.functions callee hcallee]

theorem Agree.declareVariable (hagree : Agree called first second) (name : String) :
    Alike called first second (declareVariable owner first name)
      (declareVariable owner second name) := by
  refine ⟨⟨_, List.append_assoc _ _ _, ?_⟩, ?_, hagree.functions⟩
  · simp only [Validate.declareVariable, hagree.scope, List.append_assoc]
  · simp only [Validate.declareVariable, hagree.scope]

end Step

mutual

theorem Agree.afterStatement (setting : Setting) (owner : String) {first second : State}
    (hagree : Agree called first second) {node : Node}
    (hcalls : ∀ name, node.Calls name → called name) :
    Alike called first second (afterStatement setting owner first node)
      (afterStatement setting owner second node) := by
  have hinside : ∀ child ∈ node.children, ∀ name, child.Calls name → called name := by
    rintro child hchild name ⟨arguments, hcontains⟩
    exact hcalls name ⟨arguments, .inside hchild hcontains⟩
  cases node with
  | block name statements =>
      simp only [Validate.afterStatement]
      exact hagree.afterStatements setting owner hinside
  | function name returnType parameters body =>
      have hentered := hagree.enterFunction setting name parameters
      have hbody := hentered.trans (hentered.agree.afterStatements setting name hinside)
      simp only [Validate.afterStatement]
      exact ⟨hbody.defects, hagree.scope, hbody.agree.functions⟩
  | declaration type name value =>
      have hvalue := hagree.afterExpression setting owner
        (hinside value (List.mem_singleton_self value))
      simp only [Validate.afterStatement]
      exact hvalue.trans (hvalue.agree.declareVariable owner name)
  | _ => exact hagree.afterExpression setting owner hcalls

theorem Agree.afterStatements (setting : Setting) (owner : String) {first second : State}
    (hagree : Agree called first second) {nodes : List Node}
    (hcalls : ∀ node ∈ nodes, ∀ name, node.Calls name → called name) :
    Alike called first second (afterStatements setting owner first nodes)
      (afterStatements setting owner second nodes) := by
  cases nodes with
  | nil => exact ⟨⟨[], by simp [Validate.afterStatements]⟩, hagree⟩
  | cons node rest =>
      have hnode := hagree.afterStatement setting owner (hcalls node List.mem_cons_self)
      have hrest := hnode.agree.afterStatements setting owner
        (fun other hother => hcalls other (List.mem_cons_of_mem _ hother))
      simp only [Validate.afterStatements]
      exact hnode.trans hrest

end

/-! ## The defects of each tree -/

/-- The defects that the check of a tree adds to those found before. -/
def produced (setting : Setting) (state : State) (tree : Node) : List Defect :=
  (afterStatement setting "main" state tree).defects.drop state.defects.length

/-- The trees in the order of their checks, each with the defects that its check adds. -/
def checks (setting : Setting) (state : State) : List Node → List (Node × List Defect)
  | [] => []
  | tree :: rest =>
    (tree, produced setting state tree) ::
      checks setting (afterStatement setting "main" state tree) rest

theorem Alike.produced_eq {first second : State} {tree : Node}
    (halike : Alike called first second (afterStatement setting "main" first tree)
      (afterStatement setting "main" second tree)) :
    produced setting first tree = produced setting second tree := by
  obtain ⟨found, hfirst, hsecond⟩ := halike.defects
  simp [produced, hfirst, hsecond]

theorem defects_afterStatement (state : State) (tree : Node) :
    (afterStatement setting "main" state tree).defects =
      state.defects ++ produced setting state tree := by
  have hself : Alike (fun _ => True) state state (afterStatement setting "main" state tree)
      (afterStatement setting "main" state tree) :=
    (Agree.refl state).afterStatement setting "main" fun _ _ => trivial
  obtain ⟨found, hfound, -⟩ := hself.defects
  simp [produced, hfound]

theorem defects_eq_checks (state : State) (trees : List Node) :
    (afterStatements setting "main" state trees).defects =
      state.defects ++ (checks setting state trees).flatMap Prod.snd := by
  induction trees generalizing state with
  | nil => simp [afterStatements, checks]
  | cons tree rest ih =>
      rw [afterStatements, ih, defects_afterStatement, checks, List.flatMap_cons,
        List.append_assoc]

/-- Definitions that nothing kept calls can be left out of a check. -/
theorem checks_filter (called : String → Prop) {keep : Node → Bool} {first second : State}
    {trees : List Node} (hagree : Agree called first second)
    (hkept : ∀ tree ∈ trees, keep tree = true → ∀ name, tree.Calls name → called name)
    (hdropped : ∀ tree ∈ trees, keep tree = false → ∃ definition : Definition,
      tree = definition.toNode ∧ definition.toNode.NoInnerFunction ∧ ¬ called definition.name) :
    checks setting second (trees.filter keep) =
      (checks setting first trees).filter fun check => keep check.1 := by
  induction trees generalizing first second with
  | nil => rfl
  | cons tree rest ih =>
      obtain ⟨hkeptTree, hkeptRest⟩ := List.forall_mem_cons.mp hkept
      obtain ⟨hdroppedTree, hdroppedRest⟩ := List.forall_mem_cons.mp hdropped
      cases hkeep : keep tree with
      | true =>
          have halike := hagree.afterStatement setting "main" (hkeptTree hkeep)
          simp [checks, hkeep, halike.produced_eq, ih halike.agree hkeptRest hdroppedRest]
      | false =>
          obtain ⟨definition, rfl, hinner, huncalled⟩ := hdroppedTree hkeep
          have hskipped :
              Agree called (afterStatement setting "main" first definition.toNode) second := by
            refine ⟨?_, ?_⟩
            · rw [scope_afterFunction, hagree.scope]
            · intro name hcalled
              have hdifferent : name ≠ definition.name := by
                rintro rfl
                exact huncalled hcalled
              rw [functions_afterFunction hinner, List.mem_cons, hagree.functions name hcalled]
              simp [hdifferent]
          simp [checks, hkeep, ih hskipped hkeptRest hdroppedRest]

end Validate

namespace Program

/-- The trees of a program, each with the defects that are found while it is checked. -/
def checks (program : Program) (globals : List String) : List (Node × List Defect) :=
  Validate.checks ⟨program.environment, globals⟩
    ⟨[], globals, globals.flatMap (Validate.nameDefects .global)⟩ program.trees

theorem validate_eq_checks (program : Program) (globals : List String) :
    program.validate globals = globals.flatMap (Validate.nameDefects .global) ++
      (program.checks globals).flatMap Prod.snd :=
  Validate.defects_eq_checks _ program.trees

/-- Whether a tree is the entry of a program or a definition whose name the program has. -/
def keeps (program : Program) (tree : Node) : Bool :=
  tree.asFunction?.all fun function => (program.definition? function.name).isSome

theorem keeps_main (program : Program) : program.keeps program.main = true := by
  unfold keeps definition?
  cases hentry : program.main.asFunction? with
  | none => rfl
  | some entry => simp

theorem Proper.searchable {program : Program} (hproper : program.Proper) :
    Searchable program.definitions [program.main] where
  distinct := hproper.distinct
  definitions_known definition hmember :=
    hproper.known _ (List.mem_append_left _ (List.mem_map_of_mem hmember))
  roots_known := by
    simpa using hproper.known _ (List.mem_append_right _ (List.mem_singleton_self _))

/-- What pruning makes of a proper program. -/
structure Pruned (program pruned : Program) : Prop where
  main : pruned.main = program.main
  sublist : pruned.definitions.Sublist program.definitions
  mem_iff : ∀ definition, definition ∈ pruned.definitions ↔
    Reached program.definitions [program.main] definition

theorem Proper.prune {program : Program} (hproper : program.Proper) :
    ∃ pruned, program.prune = .ok pruned ∧ Pruned program pruned := by
  obtain ⟨kept, -, hkept, -, hsublist, hreached⟩ := hproper.searchable.reachable_eq
  refine ⟨⟨kept, program.main⟩, ?_, rfl, hsublist, hreached⟩
  rw [Program.prune, hkept]
  rfl

namespace Pruned

variable {program pruned : Program}

theorem keeps_iff (hpruned : Pruned program pruned) (hproper : program.Proper)
    {definition : Definition} (hmember : definition ∈ program.definitions) :
    pruned.keeps definition.toNode = true ↔ definition ∈ pruned.definitions := by
  have hfunction : definition.toNode.asFunction? = some definition := rfl
  simp only [keeps, hfunction, Option.all_some, definition?, List.find?_isSome, List.mem_append,
    Option.mem_toList, beq_iff_eq]
  constructor
  · rintro ⟨found, hkept | hentry, hname⟩
    · have hsame := hproper.distinct.eq_of_name (hpruned.sublist.subset hkept) hmember hname
      rw [← hsame]
      exact hkept
    · rw [hpruned.main] at hentry
      exact absurd hname.symm (hproper.apart found hentry definition hmember)
  · intro hkept
    exact ⟨definition, .inl hkept, rfl⟩

theorem trees_eq (hpruned : Pruned program pruned) (hproper : program.Proper) :
    pruned.trees = program.trees.filter pruned.keeps := by
  have hdefinitions : pruned.definitions =
      program.definitions.filter (pruned.keeps ∘ Definition.toNode) := by
    apply eq_of_sublist
    · exact hproper.distinct.sublist List.filter_sublist
    · have hkept : pruned.definitions.filter (pruned.keeps ∘ Definition.toNode) =
          pruned.definitions := by
        rw [List.filter_eq_self]
        intro definition hmember
        exact (hpruned.keeps_iff hproper (hpruned.sublist.subset hmember)).mpr hmember
      rw [← hkept]
      exact hpruned.sublist.filter _
    · intro definition hmember
      obtain ⟨hold, hkept⟩ := List.mem_filter.mp hmember
      exact (hpruned.keeps_iff hproper hold).mp hkept
  have hmain : pruned.keeps program.main = true := by
    rw [← hpruned.main]
    exact pruned.keeps_main
  rw [trees, trees, List.filter_append, List.filter_map, ← hdefinitions, hpruned.main]
  simp [hmain]

theorem mem_of_calls (hpruned : Pruned program pruned) {tree : Node} (htree : tree ∈ pruned.trees)
    {definition : Definition} (hmember : definition ∈ program.definitions)
    (hcalls : tree.Calls definition.name) : definition ∈ pruned.definitions := by
  rw [trees, hpruned.main] at htree
  rw [hpruned.mem_iff]
  exact .of_calls (fun caller => (hpruned.mem_iff caller).mp) htree hmember hcalls

theorem checks_eq (hpruned : Pruned program pruned) (hproper : program.Proper)
    (hinner : ∀ definition ∈ program.definitions, definition.toNode.NoInnerFunction)
    (globals : List String) :
    pruned.checks globals =
      (program.checks globals).filter fun check => pruned.keeps check.1 := by
  have henvironment : pruned.environment = program.environment := by
    rw [environment, environment, hpruned.main]
  have htrees := hpruned.trees_eq hproper
  unfold checks
  rw [henvironment, htrees]
  apply Validate.checks_filter (fun name => ∃ tree ∈ pruned.trees, tree.Calls name)
    (Validate.Agree.refl _)
  · intro tree hmember hkeep name hcalls
    refine ⟨tree, ?_, hcalls⟩
    rw [htrees]
    exact List.mem_filter.mpr ⟨hmember, hkeep⟩
  · intro tree hmember hdropped
    rcases List.mem_append.mp hmember with hmapped | hmain
    · obtain ⟨definition, hdefinition, rfl⟩ := List.mem_map.mp hmapped
      refine ⟨definition, rfl, hinner definition hdefinition, ?_⟩
      rintro ⟨caller, hcaller, hcalls⟩
      have hkept := hpruned.mem_of_calls hcaller hdefinition hcalls
      rw [(hpruned.keeps_iff hproper hdefinition).mpr hkept] at hdropped
      cases hdropped
    · rw [List.mem_singleton.mp hmain, ← hpruned.main, keeps_main] at hdropped
      cases hdropped

end Pruned

/-- After pruning, a check finds what it found in the kept trees before, in the same order. -/
theorem validate_prune {main : Node} {definitions : List Definition} {program : Program}
    (hcreate : create main definitions = .ok program)
    (hinner : ∀ definition ∈ definitions, definition.toNode.NoInnerFunction)
    (globals : List String) :
    ∃ pruned, program.prune = .ok pruned ∧ pruned.keeps main = true ∧
      (∀ definition ∈ definitions,
        pruned.keeps definition.toNode = true ↔ definition ∈ pruned.definitions) ∧
      program.validate globals = globals.flatMap (Validate.nameDefects .global) ++
        (program.checks globals).flatMap Prod.snd ∧
      pruned.validate globals = globals.flatMap (Validate.nameDefects .global) ++
        ((program.checks globals).filter fun check => pruned.keeps check.1).flatMap Prod.snd ∧
      (program.validate globals = [] → pruned.validate globals = []) := by
  obtain ⟨rfl, hproper⟩ := create_eq_ok_iff.mp hcreate
  obtain ⟨pruned, hprune, hpruned⟩ := hproper.prune
  have hkept := hpruned.checks_eq hproper hinner globals
  refine ⟨pruned, hprune, ?_, fun definition => hpruned.keeps_iff hproper,
    validate_eq_checks _ globals, ?_, ?_⟩
  · have hmain := pruned.keeps_main
    rw [hpruned.main] at hmain
    exact hmain
  · rw [validate_eq_checks, hkept]
  · rw [validate_eq_checks, validate_eq_checks, hkept]
    intro hnone
    simp only [List.append_eq_nil_iff, List.flatMap_eq_nil_iff] at hnone ⊢
    exact ⟨hnone.1, fun check hcheck => hnone.2 check (List.mem_filter.mp hcheck).1⟩

/-- A definition that nothing calls, one that is called before it is defined, and a function inside
the entry; all but the called one have a defect. -/
def tangled : Program where
  definitions := [⟨"idle", "void", [], [.call "missing" []]⟩,
    ⟨"early", "void", [], [.call "late" []]⟩, ⟨"late", "void", [], []⟩]
  main := .function "main" "void" []
    [.call "early" [], .function "inner" "void" [] [.identifier "x"]]

theorem validate_prune_tangled :
    create tangled.main tangled.definitions = .ok tangled ∧
      tangled.validate ["sin"] =
        [.builtinName .global "sin", .undefinedCall "idle" "missing",
          .undefinedCall "early" "late", .undeclared "inner" "x"] ∧
      ∃ pruned, tangled.prune = .ok pruned ∧
        pruned.validate ["sin"] =
          [.builtinName .global "sin", .undefinedCall "early" "late",
            .undeclared "inner" "x"] := by
  have hcreate : create tangled.main tangled.definitions = .ok tangled := by rfl
  have hinner : ∀ definition ∈ tangled.definitions, definition.toNode.NoInnerFunction := by
    decide
  obtain ⟨pruned, hprune, -, -, hall, hkept, -⟩ := validate_prune hcreate hinner ["sin"]
  have hresult : tangled.prune = .ok ⟨tangled.definitions.tail, tangled.main⟩ := by rfl
  refine ⟨hcreate, ?_, pruned, hprune, ?_⟩
  · rw [hall]
    decide
  · rw [hprune, Except.ok.injEq] at hresult
    rw [hkept, hresult]
    decide

end Program

end NoiseShader
