import NoiseShader.Proofs.Program.Creation
import NoiseShader.Proofs.Program.Merging
import NoiseShader.Proofs.Program.WellFormed
import Mathlib.Tactic

/-!
# Programs with more definitions

Definitions that are put in front of a program push aside those of the program
with the same names.  What is left of the program can call as much as before,
because a definition that was pushed aside has its name among those in front.  So
what was well-formed stays well-formed, one definition after the other.

The definitions in front are judged without an environment on their own, and in
the environment of the program afterwards.  This matters to identifiers without a
name only: they pass for the environment where there is none.
-/

namespace NoiseShader

/-! ## Merges that succeed -/

/-- Distinct names have distinct fingerprints. -/
def MarksApart (definitions : List Definition) : Prop :=
  ∀ definition ∈ definitions, ∀ other ∈ definitions,
    definition.nameMark = other.nameMark → definition.name = other.name

theorem MarksApart.subset {definitions others : List Definition}
    (hapart : MarksApart definitions) (hsubset : others ⊆ definitions) : MarksApart others := by
  intro definition hmember other hother
  exact hapart definition (hsubset hmember) other (hsubset hother)

/-- Definitions that a merge takes: they have names and sources, and under one name the sources
have one fingerprint. -/
def Compatible (definitions : List Definition) : Prop :=
  (∀ definition ∈ definitions,
    definition.name ≠ "" ∧ definition.toNode.render.isOk = true) ∧
  definitions.Pairwise fun known definition =>
    known.name = definition.name → known.sourceMark = definition.sourceMark

theorem compatible_concat {earlier : List Definition} {definition : Definition} :
    Compatible (earlier ++ [definition]) ↔
      Compatible earlier ∧ definition.name ≠ "" ∧ definition.toNode.render.isOk = true ∧
        ∀ known ∈ earlier, known.name = definition.name →
          known.sourceMark = definition.sourceMark := by
  simp only [Compatible, List.mem_append, List.mem_singleton, List.pairwise_append,
    List.pairwise_singleton, or_imp, forall_and, forall_eq, true_and]
  tauto

theorem Compatible.of_append {front back : List Definition}
    (hcompatible : Compatible (front ++ back)) : Compatible front :=
  ⟨fun definition hmember => hcompatible.1 definition (List.mem_append_left _ hmember),
    (List.pairwise_append.mp hcompatible.2).1⟩

theorem Compatible.sourceMark_eq {definitions : List Definition}
    (hcompatible : Compatible definitions) {definition other : Definition}
    (hmember : definition ∈ definitions) (hother : other ∈ definitions)
    (hname : definition.name = other.name) : definition.sourceMark = other.sourceMark := by
  by_cases hsame : definition = other
  · rw [hsame]
  · have hsymmetric : Std.Symm fun known definition : Definition =>
        known.name = definition.name → known.sourceMark = definition.sourceMark :=
      ⟨fun _ _ hmarks hnames => (hmarks hnames.symm).symm⟩
    exact hcompatible.2.forall hmember hother hsame hname

namespace Merge

/-- The merge of a list of definitions. -/
structure Holds (merge : Merge) (earlier : List Definition) : Prop where
  faithful : merge.Faithful
  definitions : merge.definitions = firstOfEach earlier
  compatible : Compatible earlier

variable {merge next : Merge} {earlier : List Definition} {definition : Definition}

theorem Holds.empty : Holds Merge.empty [] :=
  ⟨rfl, rfl, by simp [Compatible]⟩

theorem Holds.insert_cases (hholds : merge.Holds earlier)
    (hapart : MarksApart (earlier ++ [definition])) :
    (∃ next, merge.insert definition = .ok next ∧ next.Holds (earlier ++ [definition])) ∨
      (∃ cause, merge.insert definition = .error cause) ∧
        ¬ Compatible (earlier ++ [definition]) := by
  rw [compatible_concat]
  by_cases hnamed : definition.name = ""
  · refine .inr ⟨⟨.unnamed, if_pos hnamed⟩, ?_⟩
    tauto
  cases hrender : definition.toNode.render with
  | error cause =>
      refine .inr ⟨⟨.unwritable cause, ?_⟩, ?_⟩
      · rw [insert, if_neg hnamed, hrender]
      · rw [Except.isOk, Except.toBool]
        tauto
  | ok source =>
      have hwritable : definition.toNode.render.isOk = true := by
        rw [hrender]
        rfl
      have hnames : ∀ known ∈ merge.definitions,
          known.nameMark = definition.nameMark → known.name = definition.name := by
        intro known hknown
        rw [hholds.definitions] at hknown
        have hearlier := (firstOfEach_sublist earlier).subset hknown
        exact hapart known (List.mem_append_left _ hearlier) definition (by simp)
      have hinsert := insert_eq hholds.faithful hnamed hrender hnames
      rw [hholds.definitions, find?_firstOfEach] at hinsert
      have hconcat := firstOfEach_concat earlier definition
      cases hfind : earlier.find? (·.name == definition.name) with
      | none =>
          rw [hfind] at hinsert hconcat
          refine .inl ⟨_, hinsert, ?_, hconcat.symm, ?_⟩
          · rw [Faithful, hholds.faithful, hholds.definitions, List.map_append]
            rfl
          · refine compatible_concat.mpr ⟨hholds.compatible, hnamed, hwritable, ?_⟩
            intro known hknown hname
            obtain ⟨found, hfound⟩ := exists_find?_name hknown hname
            rw [hfind] at hfound
            cases hfound
      | some known =>
          have hknown := mem_of_find?_name hfind
          rw [hfind] at hinsert hconcat
          by_cases hmarks : known.sourceMark = definition.sourceMark
          · refine .inl ⟨merge, hinsert.trans (if_pos hmarks), hholds.faithful,
              hholds.definitions.trans hconcat.symm, ?_⟩
            refine compatible_concat.mpr ⟨hholds.compatible, hnamed, hwritable, ?_⟩
            intro other hother hname
            rw [← hmarks]
            exact hholds.compatible.sourceMark_eq hother hknown.1 (hname.trans hknown.2.symm)
          · refine .inr ⟨⟨_, hinsert.trans (if_neg hmarks)⟩, ?_⟩
            intro hcompatible
            exact hmarks (hcompatible.2.2.2 known hknown.1 hknown.2)

theorem Holds.foldlM_cases {definitions : List Definition} (hholds : merge.Holds earlier)
    (hapart : MarksApart (earlier ++ definitions)) :
    (∃ final, definitions.foldlM insert merge = .ok final ∧
        final.Holds (earlier ++ definitions)) ∨
      (∃ cause, definitions.foldlM insert merge = .error cause) ∧
        ¬ Compatible (earlier ++ definitions) := by
  induction definitions generalizing merge earlier with
  | nil => exact .inl ⟨merge, rfl, by rwa [List.append_nil]⟩
  | cons definition rest ih =>
      have hsplit : earlier ++ definition :: rest = earlier ++ [definition] ++ rest := by simp
      rw [hsplit] at hapart ⊢
      rw [List.foldlM_cons]
      rcases hholds.insert_cases (hapart.subset (List.subset_append_left _ _)) with
        ⟨next, hinsert, hnext⟩ | ⟨⟨cause, hinsert⟩, hincompatible⟩
      · rw [hinsert]
        exact ih hnext hapart
      · rw [hinsert]
        exact .inr ⟨⟨cause, rfl⟩, fun hcompatible => hincompatible hcompatible.of_append⟩

end Merge

theorem mergeDefinitions_eq_ok_iff_compatible {lists : List (List Definition)}
    {merged : List Definition} (hapart : MarksApart lists.flatten) :
    mergeDefinitions lists = .ok merged ↔
      Compatible lists.flatten ∧ merged = firstOfEach lists.flatten := by
  unfold mergeDefinitions
  rcases Merge.Holds.empty.foldlM_cases hapart with
    ⟨final, hfold, hholds⟩ | ⟨⟨cause, hfold⟩, hincompatible⟩
  · have hcompatible : Compatible lists.flatten := hholds.compatible
    have hdefinitions : final.definitions = firstOfEach lists.flatten := hholds.definitions
    rw [hfold, ← hdefinitions]
    simp [hcompatible, bind, Except.bind, pure, Except.pure, eq_comm]
  · have hnot : ¬ Compatible lists.flatten := hincompatible
    rw [hfold]
    simp [hnot, bind, Except.bind]

theorem firstOfEach_append (front back : List Definition) :
    firstOfEach (front ++ back) =
      firstOfEach front ++ (firstOfEach back).filter (·.name ∉ front.map Definition.name) := by
  induction front with
  | nil => simp [firstOfEach]
  | cons definition rest ih =>
      rw [List.cons_append, firstOfEach, firstOfEach, ih, List.filter_append, List.filter_filter,
        List.cons_append]
      congr 2
      apply List.filter_congr
      intro other _
      rw [Bool.eq_iff_iff]
      simp

theorem firstOfEach_append_of_distinctNames {front back : List Definition}
    (hfront : DistinctNames front) (hback : DistinctNames back) :
    firstOfEach (front ++ back) =
      front ++ back.filter (·.name ∉ front.map Definition.name) := by
  rw [firstOfEach_append, firstOfEach_of_distinctNames hfront, firstOfEach_of_distinctNames hback]

/-! ## Well-formed one after the other -/

/-- Each definition is well-formed where it and those in front of it can be called. -/
def WellFormedFrom (environment : String) (globals : List String) :
    (known : List String) → List Definition → Prop
  | _, [] => True
  | known, definition :: rest =>
    definition.toNode.WellFormed environment globals (definition.name :: known) ∧
      WellFormedFrom environment globals (definition.name :: known) rest

namespace WellFormedFrom

variable {environment : String} {globals known others : List String}
  {definitions : List Definition}

theorem append {front back : List Definition}
    (hfront : WellFormedFrom environment globals known front)
    (hback : WellFormedFrom environment globals
      ((front.map Definition.name).reverse ++ known) back) :
    WellFormedFrom environment globals known (front ++ back) := by
  induction front generalizing known with
  | nil => exact hback
  | cons definition rest ih =>
      refine ⟨hfront.1, ih hfront.2 ?_⟩
      simpa using hback

/-- Definitions may be left out if their names can be called all the same. -/
theorem filter {keep : Definition → Bool}
    (hwell : WellFormedFrom environment globals known definitions) (hsubset : known ⊆ others)
    (hdropped : ∀ definition ∈ definitions, keep definition = false →
      definition.name ∈ others) :
    WellFormedFrom environment globals others (definitions.filter keep) := by
  induction definitions generalizing known others with
  | nil => trivial
  | cons definition rest ih =>
      have hrest := fun other hother => hdropped other (List.mem_cons_of_mem _ hother)
      cases hkeep : keep definition with
      | true =>
          have hmore : definition.name :: known ⊆ definition.name :: others :=
            List.cons_subset_cons _ hsubset
          rw [List.filter_cons_of_pos hkeep]
          refine ⟨hwell.1.known_mono hmore, ih hwell.2 hmore ?_⟩
          intro other hother hdrop
          exact List.mem_cons_of_mem _ (hrest other hother hdrop)
      | false =>
          have hname := hdropped definition List.mem_cons_self hkeep
          rw [List.filter_cons_of_neg (by simp [hkeep])]
          exact ih hwell.2 (List.cons_subset.mpr ⟨hname, hsubset⟩) hrest

end WellFormedFrom

theorem Validate.defects_afterEach {setting : Setting} {owner : String} {state : State}
    {definitions : List Definition}
    (hinner : ∀ definition ∈ definitions, definition.toNode.NoInnerFunction) :
    (afterStatements setting owner state (definitions.map Definition.toNode)).defects = [] ↔
      state.defects = [] ∧
        WellFormedFrom setting.environment setting.globals state.functions definitions := by
  induction definitions generalizing state with
  | nil => simp [afterStatements, WellFormedFrom]
  | cons definition rest ih =>
      have hfirst := hinner definition List.mem_cons_self
      have hrest := fun other hother => hinner other (List.mem_cons_of_mem _ hother)
      rw [List.map_cons, afterStatements, ih hrest, defects_afterFunction hfirst,
        functions_afterFunction hfirst, and_assoc, WellFormedFrom]

theorem Program.forall_trees {program : Program} {holds : Node → Prop} :
    (∀ tree ∈ program.trees, holds tree) ↔
      (∀ definition ∈ program.definitions, holds definition.toNode) ∧ holds program.main := by
  simp [trees, or_imp, forall_and]

theorem Program.validate_eq_nil_iff_inOrder {program : Program}
    (hinner : ∀ tree ∈ program.trees, tree.NoInnerFunction) (globals : List String) :
    program.validate globals = [] ↔
      (globals.flatMap (Validate.nameDefects .global) = [] ∧
        WellFormedFrom program.environment globals [] program.definitions) ∧
      program.main.WellFormed program.environment globals
        (program.main.functionName?.toList ++
          (program.definitions.map Definition.name).reverse) := by
  obtain ⟨hdefinitions, hmain⟩ := forall_trees.mp hinner
  simp only [validate, trees, Validate.afterStatements_append, Validate.afterStatements]
  rw [Validate.defects_afterMain hmain (Validate.scope_afterDefinitions _ _),
    Validate.defects_afterEach hdefinitions, Validate.functions_afterDefinitions hdefinitions,
    List.append_nil]

/-! ## Changing the environment -/

namespace Node

mutual

theorem contains_of_mem_inlined {node statement : Node} (hmember : statement ∈ node.inlined) :
    node.Contains statement := by
  cases node with
  | block name statements =>
      rw [inlined] at hmember
      obtain ⟨child, hchild, hcontains⟩ := contains_of_mem_inlinedAll hmember
      exact .inside hchild hcontains
  | _ =>
      simp only [inlined, List.mem_singleton] at hmember
      subst hmember
      exact .self _

theorem contains_of_mem_inlinedAll {nodes : List Node} {statement : Node}
    (hmember : statement ∈ inlinedAll nodes) : ∃ node ∈ nodes, node.Contains statement := by
  cases nodes with
  | nil => simp [inlinedAll] at hmember
  | cons node rest =>
      rw [inlinedAll, List.mem_append] at hmember
      rcases hmember with hfirst | hrest
      · exact ⟨node, List.mem_cons_self, contains_of_mem_inlined hfirst⟩
      · obtain ⟨other, hother, hcontains⟩ := contains_of_mem_inlinedAll hrest
        exact ⟨other, List.mem_cons_of_mem _ hother, hcontains⟩

end

theorem contains_of_mem_statements {tree statement : Node} (hmember : statement ∈ tree.statements) :
    tree.Contains statement := by
  cases tree with
  | function name returnType parameters body =>
      obtain ⟨child, hchild, hcontains⟩ := contains_of_mem_inlinedAll hmember
      exact .inside hchild hcontains
  | _ => exact contains_of_mem_inlined hmember

/-- Without an environment only an identifier without a name passes for it. -/
theorem WellFormed.change_environment {environment : String} {globals known : List String}
    {tree : Node} (hwell : tree.WellFormed "" globals known)
    (hnamed : ¬ tree.Contains (identifier "")) : tree.WellFormed environment globals known where
  name_free := hwell.name_free
  parameters_free := hwell.parameters_free
  locals_free := hwell.locals_free
  calls_known := hwell.calls_known
  identifiers_declared front statement back hsplit name hcontains := by
    rcases hwell.identifiers_declared front statement back hsplit name hcontains with
      rfl | hdeclared
    · have hstatement : statement ∈ tree.statements := by simp [hsplit]
      exact absurd ((contains_of_mem_statements hstatement).trans hcontains) hnamed
    · exact .inr hdeclared
  locals_new := hwell.locals_new

end Node

theorem WellFormedFrom.change_environment {environment : String} {globals known : List String}
    {definitions : List Definition} (hwell : WellFormedFrom "" globals known definitions)
    (hnamed : environment ≠ "" →
      ∀ definition ∈ definitions, ¬ definition.toNode.Contains (.identifier "")) :
    WellFormedFrom environment globals known definitions := by
  by_cases hempty : environment = ""
  · rwa [hempty]
  · have hidentifiers := hnamed hempty
    clear hnamed
    induction definitions generalizing known with
    | nil => trivial
    | cons definition rest ih =>
        refine ⟨hwell.1.change_environment (hidentifiers definition List.mem_cons_self), ?_⟩
        exact ih hwell.2 fun other hother => hidentifiers other (List.mem_cons_of_mem _ hother)

/-! ## Including definitions -/

namespace Program

variable {program result : Program} {definitions : List Definition}

/-- The definitions of a program whose names are not among those of others. -/
def remaining (program : Program) (definitions : List Definition) : List Definition :=
  program.definitions.filter (·.name ∉ definitions.map Definition.name)

theorem remaining_subset (program : Program) (definitions : List Definition) :
    program.remaining definitions ⊆ program.definitions :=
  List.filter_subset_self _

theorem withDefinitions_eq_ok_iff :
    program.withDefinitions definitions = .ok result ↔
      ∃ merged, mergeDefinitions [definitions, program.definitions] = .ok merged ∧
        create program.main merged = .ok result := by
  unfold withDefinitions
  cases mergeDefinitions [definitions, program.definitions] <;> simp

/-- What is included, and what was there before. -/
structure Joinable (program : Program) (definitions : List Definition) : Prop where
  distinct : DistinctNames definitions
  programDistinct : DistinctNames program.definitions
  apart : MarksApart (definitions ++ program.definitions)

namespace Joinable

variable (hjoinable : program.Joinable definitions)
include hjoinable

theorem withDefinitions_eq_ok_iff :
    program.withDefinitions definitions = .ok result ↔
      Compatible (definitions ++ program.definitions) ∧
        result = ⟨definitions ++ program.remaining definitions, program.main⟩ ∧
        result.Proper := by
  have hflatten : [definitions, program.definitions].flatten =
      definitions ++ program.definitions := by simp
  have hmerge := fun merged => @mergeDefinitions_eq_ok_iff_compatible
    [definitions, program.definitions] merged (hflatten ▸ hjoinable.apart)
  simp only [hflatten, firstOfEach_append_of_distinctNames hjoinable.distinct
    hjoinable.programDistinct] at hmerge
  simp only [Program.withDefinitions_eq_ok_iff, hmerge, create_eq_ok_iff]
  constructor
  · rintro ⟨merged, ⟨hcompatible, rfl⟩, hresult⟩
    exact ⟨hcompatible, hresult⟩
  · rintro ⟨hcompatible, hresult⟩
    exact ⟨_, ⟨hcompatible, rfl⟩, hresult⟩

/-- Definitions that are there already are not added again. -/
theorem withDefinitions_again (hinclude : program.withDefinitions definitions = .ok result) :
    result.withDefinitions definitions = .ok result := by
  obtain ⟨hcompatible, hresult, hproper⟩ := hjoinable.withDefinitions_eq_ok_iff.mp hinclude
  have hdefinitions : result.definitions = definitions ++ program.remaining definitions := by
    rw [hresult]
  have hold : definitions ++ result.definitions ⊆ definitions ++ program.definitions := by
    rw [hdefinitions]
    exact List.append_subset.mpr ⟨List.subset_append_left _ _,
      List.append_subset.mpr ⟨List.subset_append_left _ _,
        List.Subset.trans (program.remaining_subset definitions)
          (List.subset_append_right _ _)⟩⟩
  have hnew : definitions ++ result.definitions ⊆ result.definitions := by
    refine List.append_subset.mpr ⟨?_, List.Subset.refl _⟩
    rw [hdefinitions]
    exact List.subset_append_left _ _
  have hremaining : definitions ++ result.remaining definitions = result.definitions := by
    have hnone : definitions.filter (·.name ∉ definitions.map Definition.name) = [] := by
      rw [List.filter_eq_nil_iff]
      intro definition hmember
      simpa using ⟨definition, hmember, rfl⟩
    rw [remaining, hdefinitions, List.filter_append, hnone, List.nil_append, remaining,
      List.filter_filter]
    simp only [Bool.and_self]
  have hagain : result.Joinable definitions :=
    ⟨hjoinable.distinct, hproper.distinct, hjoinable.apart.subset hold⟩
  rw [hagain.withDefinitions_eq_ok_iff]
  refine ⟨⟨?_, ?_⟩, ?_, hproper⟩
  · intro definition hmember
    exact hcompatible.1 definition (hold hmember)
  · apply List.pairwise_of_forall_mem_list
    intro first hfirst second hsecond hname
    rw [hproper.distinct.eq_of_name (hnew hfirst) (hnew hsecond) hname]
  · rw [hremaining]

end Joinable

theorem environment_literal (definitions : List Definition) (literal : Literal) :
    (Program.mk definitions (.literal literal)).environment = "" := by
  simp [environment, Node.preorder, Node.environmentName?]

/-- Every name that the program can call can be called with more definitions in front. -/
theorem names_subset (program : Program) (definitions : List Definition) :
    program.definitions.map Definition.name ⊆
      (definitions ++ program.remaining definitions).map Definition.name := by
  intro name hname
  rw [List.map_append, List.mem_append]
  by_cases hnew : name ∈ definitions.map Definition.name
  · exact .inl hnew
  · obtain ⟨definition, hmember, rfl⟩ := List.mem_map.mp hname
    have hkept : definition ∈ program.remaining definitions :=
      List.mem_filter.mpr ⟨hmember, decide_eq_true hnew⟩
    exact .inr (List.mem_map_of_mem hkept)

theorem wellFormedFrom_included {globals : List String}
    (hwell : WellFormedFrom program.environment globals [] program.definitions)
    (halone : WellFormedFrom program.environment globals [] definitions) :
    WellFormedFrom program.environment globals []
      (definitions ++ program.remaining definitions) := by
  apply halone.append
  apply hwell.filter (List.nil_subset _)
  intro definition _ hdropped
  simpa using hdropped

/-- A program without defects stays so when definitions without defects are put in front of it.
The definitions come first, then those of the program with other names, and including them once
more changes nothing. -/
theorem validate_withDefinitions {globals : List String} {literal : Literal}
    (hprogram : DistinctNames program.definitions) (hdistinct : DistinctNames definitions)
    (hapart : MarksApart (definitions ++ program.definitions))
    (hinnerProgram : ∀ tree ∈ program.trees, tree.NoInnerFunction)
    (hinner : ∀ definition ∈ definitions, definition.toNode.NoInnerFunction)
    (hnamed : program.environment ≠ "" →
      ∀ definition ∈ definitions, ¬ definition.toNode.Contains (.identifier ""))
    (hvalid : program.validate globals = [])
    (halone : (Program.mk definitions (.literal literal)).validate globals = [])
    (hinclude : program.withDefinitions definitions = .ok result) :
    result.validate globals = [] ∧ result.main = program.main ∧
      result.definitions = definitions ++
        program.definitions.filter (·.name ∉ definitions.map Definition.name) ∧
      result.withDefinitions definitions = .ok result := by
  have hjoinable : program.Joinable definitions := ⟨hdistinct, hprogram, hapart⟩
  have hagain := hjoinable.withDefinitions_again hinclude
  obtain ⟨-, hresult, -⟩ := hjoinable.withDefinitions_eq_ok_iff.mp hinclude
  have hinnerAlone : ∀ tree ∈ (Program.mk definitions (.literal literal)).trees,
      tree.NoInnerFunction :=
    forall_trees.mpr ⟨hinner, fun child hchild => by cases hchild⟩
  have hinnerResult : ∀ tree ∈ result.trees, tree.NoInnerFunction := by
    rw [hresult]
    refine forall_trees.mpr ⟨?_, (forall_trees.mp hinnerProgram).2⟩
    intro definition hmember
    rcases List.mem_append.mp hmember with hnew | hkept
    · exact hinner definition hnew
    · exact (forall_trees.mp hinnerProgram).1 definition
        (program.remaining_subset definitions hkept)
  rw [validate_eq_nil_iff_inOrder hinnerProgram] at hvalid
  rw [validate_eq_nil_iff_inOrder hinnerAlone, environment_literal] at halone
  obtain ⟨⟨hglobals, hdefinitions⟩, hmain⟩ := hvalid
  have hfront := halone.1.2.change_environment hnamed
  refine ⟨?_, ?_, ?_, hagain⟩
  · have henvironment : result.environment = program.environment := by
      rw [hresult]
      rfl
    rw [validate_eq_nil_iff_inOrder hinnerResult, henvironment, hresult]
    refine ⟨⟨hglobals, wellFormedFrom_included hdefinitions hfront⟩, hmain.known_mono ?_⟩
    intro name hname
    rw [List.mem_append, List.mem_reverse] at hname ⊢
    exact hname.imp_right fun hknown => program.names_subset definitions hknown
  · rw [hresult]
  · rw [hresult]
    rfl

/-- The definition `fade` does not need `grow`, which stands in front of it. -/
def dimmed : Program where
  definitions :=
    [⟨"grow", "float", [⟨"float", "t"⟩],
        [.result (.binary "*" (.identifier "t") (.identifier "t"))]⟩,
      ⟨"fade", "float", [⟨"float", "t"⟩],
        [.result (.call "mix" [.identifier "t", .identifier "dusk"])]⟩]
  main := .block "Env" [.assignment (.identifier "gl_FragDepth")
    (.call "grow" [.call "fade" [.member (.identifier "Env") "level"]])]

def lifts : List Definition :=
  [⟨"fade", "float", [⟨"float", "t"⟩],
      [.result (.call "mix" [.identifier "t", .identifier "dusk"])]⟩,
    ⟨"lift", "float", [⟨"float", "t"⟩], [.result (.call "fade" [.identifier "t"])]⟩]

theorem validate_withDefinitions_dimmed :
    dimmed.environment ≠ "" ∧ dimmed.validate ["dusk"] = [] ∧
      ∃ result, dimmed.withDefinitions lifts = .ok result ∧ result.validate ["dusk"] = [] ∧
        result.definitions.map Definition.name = ["fade", "lift", "grow"] ∧
        result.withDefinitions lifts = .ok result := by
  have hvalid : dimmed.validate ["dusk"] = [] := by decide
  have halone : (Program.mk lifts (.literal (.int 0))).validate ["dusk"] = [] := by decide
  have hnamed : ∀ definition ∈ lifts, ¬ definition.toNode.Contains (.identifier "") := by
    intro definition hmember hcontains
    have hvisited := Node.mem_preorder_of_contains hcontains (by simp)
    simp only [lifts, List.mem_cons, List.not_mem_nil, or_false] at hmember
    rcases hmember with rfl | rfl <;>
      simp [Definition.toNode, Node.preorder, Node.preorderAll] at hvisited
  have hinclude : dimmed.withDefinitions lifts =
      .ok ⟨lifts ++ dimmed.definitions.take 1, dimmed.main⟩ := by rfl
  obtain ⟨hresult, -, -, hagain⟩ := validate_withDefinitions (by decide) (by decide)
    (by unfold MarksApart; decide) (by decide) (by decide) (fun _ => hnamed) hvalid halone hinclude
  exact ⟨by decide, hvalid, _, hinclude, hresult, rfl, hagain⟩

/-- A function that returns an identifier without a name. -/
def namelessShade : Definition := ⟨"shade", "float", [], [.result (.identifier "")]⟩

def bareEnvironment : Program := ⟨[], .block "Env" []⟩

/-- On its own the nameless identifier passes for the environment, and in a program that has one
it does not. -/
theorem validate_withDefinitions_namelessShade :
    DistinctNames bareEnvironment.definitions ∧ DistinctNames [namelessShade] ∧
      MarksApart ([namelessShade] ++ bareEnvironment.definitions) ∧
      (∀ tree ∈ bareEnvironment.trees, tree.NoInnerFunction) ∧
      (∀ definition ∈ [namelessShade], definition.toNode.NoInnerFunction) ∧
      bareEnvironment.validate [] = [] ∧
      (Program.mk [namelessShade] (.literal (.int 0))).validate [] = [] ∧
      ∃ result, bareEnvironment.withDefinitions [namelessShade] = .ok result ∧
        result.validate [] = [.undeclared "shade" ""] := by
  refine ⟨by decide, by decide, by unfold MarksApart; decide, by decide, by decide, by decide,
    by decide, ⟨[namelessShade], bareEnvironment.main⟩, by rfl, by decide⟩

end Program

end NoiseShader
