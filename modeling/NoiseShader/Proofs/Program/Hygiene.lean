import NoiseShader.Proofs.Program.Inclusion
import NoiseShader.Proofs.Program.Renaming
import Mathlib.Tactic

/-!
# Parameters and local variables beside an environment

The environment of a program is known by its name alone, and it is flattened in the
definitions as well as in the entry.  A parameter or a local variable of the same
name is taken for it, and its name vanishes from the text.  All other variables
keep their names: each place where such a variable stands is a hole in the text of
the program, and nothing but the name stands in it.
-/

namespace NoiseShader

namespace Node

/-- A function, or a tree that is none, refers to one of its parameters or to a variable that an
earlier statement of it declares. -/
def RefersToLocal (tree : Node) (name : String) : Prop :=
  ∃ front statement back, tree.statements = front ++ statement :: back ∧
    statement.Contains (identifier name) ∧
      (name ∈ tree.parameterNames ∨ name ∈ front.filterMap declaredName?)

/-- The name of a variable stands in the text of the variable, of its members and of its
swizzles. -/
structure NameKept (environment name : String) : Prop where
  alone : ∀ position, ∃ text, (identifier name).renderIn environment position = .ok text ∧
    name.toList <:+: text.toList
  ofMember : ∀ position field, ∃ text,
    (member (identifier name) field).renderIn environment position = .ok text ∧
      name.toList <:+: text.toList
  ofSwizzle : ∀ position selection, selection.arity ≠ 0 → ∃ text,
    (swizzle (identifier name) selection).renderIn environment position = .ok text ∧
      name.toList <:+: text.toList

end Node

theorem inside_placed (position : Position) {name text : String}
    (hinside : name.toList <:+: text.toList) : name.toList <:+: (placed position text).toList := by
  cases position with
  | expression => exact hinside
  | statement depth =>
      simp only [placed, String.toList_append, List.append_assoc]
      exact hinside.trans ((List.prefix_append _ _).isInfix.trans (List.suffix_append _ _).isInfix)

namespace Node

variable {environment name : String}

theorem nameKept_of_isEnvironment
    (hother : isEnvironment environment (identifier name) = false) :
    NameKept environment name := by
  have hbinding : needsParentheses (identifier name).binding .postfixed false = false := rfl
  refine ⟨fun position => ?_, fun position field => ?_, fun position selection harity => ?_⟩
  · refine ⟨placed position name, ?_, inside_placed position List.infix_rfl⟩
    simp [renderIn, hother, pure, Except.pure]
  · refine ⟨placed position (name ++ "." ++ field), ?_, inside_placed position ?_⟩
    · simp [renderIn, hother, hbinding, parenthesized, pure, Except.pure, bind, Except.bind, placed]
    · simp [String.append_assoc, (List.prefix_append _ _).isInfix]
  · refine ⟨placed position (name ++ "." ++ selection.pattern), ?_, inside_placed position ?_⟩
    · simp [renderIn, hother, harity, hbinding, parenthesized, pure, Except.pure, bind,
        Except.bind, placed]
    · simp [String.append_assoc, (List.prefix_append _ _).isInfix]

theorem nameKept_iff : NameKept environment name ↔ name ≠ environment ∨ name = "" := by
  constructor
  · intro hkept
    by_contra hlost
    rw [not_or, not_not] at hlost
    obtain ⟨rfl, hnamed⟩ := hlost
    obtain ⟨text, htext, hinside⟩ := hkept.alone .expression
    have hempty : "" = text := by
      simpa [renderIn, isEnvironment, hnamed, placed, pure, Except.pure] using htext
    rw [← hempty, String.toList_empty, List.infix_nil, String.toList_eq_nil_iff] at hinside
    exact hnamed hinside
  · intro hother
    apply nameKept_of_isEnvironment
    rcases hother with hne | rfl
    · simp [isEnvironment, hne]
    · by_cases henvironment : environment = "" <;> simp [isEnvironment, henvironment, Ne.symm]

theorem occurrences_pos {tree : Node} (hcontains : tree.Contains (identifier name)) :
    0 < tree.occurrences name := by
  have hmember := mem_preorder_of_contains hcontains (by simp)
  exact List.countP_pos_iff.mpr ⟨_, hmember, by simp [isNamed]⟩

theorem occurrencesAll_append (front back : List Node) :
    occurrencesAll name (front ++ back) = occurrencesAll name front + occurrencesAll name back := by
  simp [occurrencesAll, preorderAll_append]

theorem RefersToLocal.contains {tree : Node} (hrefers : tree.RefersToLocal name) :
    tree.Contains (identifier name) := by
  obtain ⟨front, statement, back, hstatements, hcontains, -⟩ := hrefers
  have hmember : statement ∈ tree.statements := by simp [hstatements]
  exact (contains_of_mem_statements hmember).trans hcontains

end Node

def Definition.rename (old new : String) (definition : Definition) : Definition :=
  { definition with body := Node.renameAll old new definition.body }

theorem Definition.toNode_rename (old new : String) (definition : Definition) :
    (definition.rename old new).toNode = definition.toNode.rename old new := by
  simp [Definition.rename, Definition.toNode, Node.rename]

namespace Program

/-- Some function of the program, or its entry, refers to a local variable. -/
def RefersToLocal (program : Program) (name : String) : Prop :=
  ∃ tree ∈ program.trees, ∃ scope, tree.Contains scope ∧ scope.RefersToLocal name

/-- The program in which another variable stands wherever one stood. -/
def rename (old new : String) (program : Program) : Program where
  definitions := program.definitions.map (·.rename old new)
  main := program.main.rename old new

variable (program : Program) {name : String}

theorem rename_self : program.rename name name = program := by
  have hdefinition : ∀ definition : Definition, definition.rename name name = definition := by
    intro definition
    rw [Definition.rename, Node.renameAll_self]
  simp [rename, hdefinition, Node.rename_self]

theorem environment_rename (old new : String) :
    (program.rename old new).environment = program.environment := by
  simp only [environment, rename, Node.preorder_rename, List.findSome?_map, Function.comp_def,
    Node.environmentName?_rename]

theorem occurrencesAll_pos (hrefers : program.RefersToLocal name) :
    0 < Node.occurrencesAll name program.trees := by
  obtain ⟨tree, htree, scope, hscope, hlocal⟩ := hrefers
  obtain ⟨front, back, htrees⟩ := List.append_of_mem htree
  have hpos := Node.occurrences_pos (hscope.trans hlocal.contains)
  rw [htrees, Node.occurrencesAll_append, Node.occurrencesAll_cons]
  omega

/-- The text of a program before the blank space around it is dropped. -/
def fullText (program : Program) (environment : String) : Except RenderError String := do
  if program.main.isAbsent then throw .emptyProgram
  let definitions ← program.definitions.mapM (·.toNode.renderWith environment)
  let main ← program.main.renderWith environment
  return Node.lines definitions ++ main

theorem render_eq_fullText :
    program.render = Text.trimBlank <$> program.fullText program.environment := by
  unfold render fullText
  split_ifs
  · rfl
  · simp [Node.lines]

theorem keepsAll_definitions {environment : String} (hname : name ≠ environment)
    (definitions : List Definition) :
    KeepsAll environment (Node.occurrencesAll name (definitions.map Definition.toNode))
      fun other =>
        (definitions.map (·.rename name other)).mapM (·.toNode.renderWith environment) := by
  induction definitions with
  | nil => exact .nil
  | cons definition rest ih =>
      simp only [List.map_cons, List.mapM_cons, Node.occurrencesAll_cons, Definition.toNode_rename]
      exact .cons (Node.keeps_renderWith hname definition.toNode) ih

theorem keeps_fullText {environment : String} (hname : name ≠ environment) :
    Keeps environment (Node.occurrencesAll name program.trees) fun other =>
      (program.rename name other).fullText environment := by
  by_cases habsent : program.main.isAbsent
  · refine .fails .emptyProgram fun other _ => ?_
    simp only [fullText, rename, Node.isAbsent_rename, habsent]
    rfl
  · have hdefinitions := keepsAll_definitions hname program.definitions
    have hmain := Node.keeps_renderWith hname program.main
    have hcount : Node.occurrencesAll name program.trees =
        Node.occurrencesAll name (program.definitions.map Definition.toNode) +
          program.main.occurrences name := by
      simp [trees, Node.occurrencesAll_append]
    rw [hcount]
    apply (hdefinitions.lines.joined "" hmain).congr
    intro other _
    simp [fullText, rename, Node.isAbsent_rename, habsent]

/-- A variable keeps its name in the text of itself, of its members and of its swizzles exactly if
this is not the name of the environment (or empty).  Apart from the environment, the text of a
program has a hole for each place of a variable, at least one if it is a local variable that is
referred to, and depends on the name of the variable in nothing but the holes, before the blank
space around it is dropped. -/
theorem variables_keep_names (name : String) :
    (Node.NameKept program.environment name ↔ name ≠ program.environment ∨ name = "") ∧
      (program.RefersToLocal name → 0 < Node.occurrencesAll name program.trees) ∧
      (name ≠ program.environment → ∃ text : String → Except RenderError String,
        Keeps program.environment (Node.occurrencesAll name program.trees) text ∧
          program.render = Text.trimBlank <$> text name ∧
          ∀ other, other ≠ program.environment →
            (program.rename name other).render = Text.trimBlank <$> text other) ∧
      ∀ full, Text.Trims full (Text.trimBlank full) := by
  refine ⟨Node.nameKept_iff, program.occurrencesAll_pos, fun hname => ?_, Text.trims_trimBlank⟩
  refine ⟨_, program.keeps_fullText hname, ?_, fun other _ => ?_⟩
  · rw [rename_self, render_eq_fullText]
  · rw [render_eq_fullText, environment_rename]

/-- A parameter and a local variable beside members of the environment. -/
def striped : Program where
  definitions := [⟨"stripe", "vec2", [⟨"vec2", "at"⟩],
    [.declaration "vec2" "scaled"
      (.binary "*" (.identifier "at") (.member (.identifier "Env") "zoom")),
    .result (.member (.identifier "scaled") "yx")]⟩]
  main := .block "Env" [.call "stripe" [.member (.identifier "Env") "origin"]]

theorem variables_keep_names_striped :
    striped.RefersToLocal "scaled" ∧ Node.NameKept striped.environment "scaled" ∧
      0 < Node.occurrencesAll "scaled" striped.trees ∧
      ∃ text : String → Except RenderError String,
        Keeps striped.environment (Node.occurrencesAll "scaled" striped.trees) text ∧
          striped.render = Text.trimBlank <$> text "scaled" ∧
          (striped.rename "scaled" "sum").render = Text.trimBlank <$> text "sum" := by
  have hrefers : striped.RefersToLocal "scaled" := by
    refine ⟨_, List.mem_cons_self, _, .self _, [_], _, [], rfl, ?_, .inr (by decide)⟩
    exact .inside List.mem_cons_self (.inside List.mem_cons_self (.self _))
  obtain ⟨hkept, hpos, htext, -⟩ := striped.variables_keep_names "scaled"
  obtain ⟨text, hkeeps, hsame, hrenamed⟩ := htext (by decide)
  exact ⟨hrefers, hkept.mpr (.inl (by decide)), hpos hrefers, text, hkeeps, hsame,
    hrenamed "sum" (by decide)⟩

/-- A parameter with the name of the environment. -/
def shadowed : Program where
  definitions := [⟨"shade", "float", [⟨"float", "Env"⟩], [.result (.identifier "Env")]⟩]
  main := .block "Env" [.call "shade" [.literal (.raw "0.5")]]

theorem shadowed_parameter_lost :
    shadowed.validate [] = [] ∧ shadowed.RefersToLocal "Env" ∧
      ¬ Node.NameKept shadowed.environment "Env" ∧
      shadowed.render = .ok "float shade(float Env) \x7b\n\treturn ;\n\x7d\nshade(0.5);" := by
  refine ⟨by decide, ?_, ?_, by decide⟩
  · refine ⟨_, List.mem_cons_self, _, .self _, [], _, [], rfl, ?_, .inl (by decide)⟩
    exact .inside List.mem_cons_self (.self _)
  · rw [Node.nameKept_iff]
    decide

end Program

end NoiseShader
