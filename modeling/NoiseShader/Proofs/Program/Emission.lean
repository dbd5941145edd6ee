import NoiseShader.Program.Stage
import NoiseShader.Proofs.Syntax.Construction
import NoiseShader.Proofs.Syntax.Containment
import NoiseShader.Proofs.Syntax.Pieces
import NoiseShader.Proofs.Vector.Pattern
import Mathlib.Tactic

/-!
# Members that are written without their environment

In a tree from the checked constructors every name that stands for a member of the
environment is non-empty, and in the text such names come in the order in which a
traversal meets the nodes they are written for.

The members that a program lists are therefore the names in its text, and a
fragment shader declares each of them or is not written at all.
-/

namespace NoiseShader

namespace Node

/-- The members of an environment that a tree refers to, in the order of a traversal. -/
def references (environment : String) (node : Node) : List String :=
  node.preorder.filterMap (Program.environmentMember? environment)

def referencesAll (environment : String) (nodes : List Node) : List String :=
  (preorderAll nodes).filterMap (Program.environmentMember? environment)

@[simp] theorem referencesAll_nil (environment : String) : referencesAll environment [] = [] :=
  rfl

@[simp] theorem referencesAll_cons (environment : String) (node : Node) (rest : List Node) :
    referencesAll environment (node :: rest) =
      node.references environment ++ referencesAll environment rest := by
  simp [referencesAll, references, preorderAll]

theorem referencesAll_append (environment : String) (front back : List Node) :
    referencesAll environment (front ++ back) =
      referencesAll environment front ++ referencesAll environment back := by
  induction front with
  | nil => rfl
  | cons node rest ih =>
      rw [List.cons_append, referencesAll_cons, referencesAll_cons, ih, List.append_assoc]

/-- Wherever it stands, a tree has a text, and the names in it that stand for members of the
environment are those a traversal meets. -/
def Emits (environment : String) (node : Node) : Prop :=
  ∀ position, ∃ text, node.pieces environment position = .ok text ∧
    emitted text = node.references environment

theorem Emits.present {environment : String} {node : Node} (hemits : node.Emits environment) :
    node.isAbsent = false := by
  cases node with
  | absent =>
      obtain ⟨text, htext, -⟩ := hemits .expression
      simp [pieces] at htext
  | _ => rfl

/-- A node adds to the members of its children only what it refers to itself. -/
theorem references_eq {node : Node} (hpresent : node ≠ absent) (environment : String) :
    node.references environment =
      (Program.environmentMember? environment node).toList ++
        referencesAll environment node.children := by
  unfold references referencesAll
  rw [preorder_eq hpresent, List.filterMap_cons]
  cases Program.environmentMember? environment node <;> rfl

theorem references_eq_children {environment : String} {node : Node}
    (hnone : Program.environmentMember? environment node = none) :
    node.references environment = referencesAll environment node.children := by
  by_cases hpresent : node = absent
  · rw [hpresent]
    rfl
  · rw [references_eq hpresent, hnone]
    rfl

theorem references_of_isEnvironment {environment : String} {node : Node}
    (hnode : isEnvironment environment node = true) : node.references environment = [] := by
  cases node with
  | identifier name => rfl
  | _ => cases hnode

theorem emits_all {environment : String} {nodes : List Node}
    (hemits : ∀ node ∈ nodes, node.Emits environment) (position : Position) :
    ∃ texts, piecesAll environment position nodes = .ok texts ∧
      texts.flatMap emitted = referencesAll environment nodes := by
  induction nodes with
  | nil => exact ⟨[], rfl, rfl⟩
  | cons node rest ih =>
      obtain ⟨text, htext, hnames⟩ := hemits node List.mem_cons_self position
      obtain ⟨texts, htexts, hothers⟩ :=
        ih fun other hother => hemits other (List.mem_cons_of_mem node hother)
      refine ⟨text :: texts, ?_, ?_⟩
      · simp only [piecesAll, htext, htexts]
        rfl
      · rw [List.flatMap_cons, hnames, hothers, referencesAll_cons]

section Emission

variable {environment : String}

theorem emits_literal {value : Literal} {text : String} (hvalue : value.render = .ok text) :
    (literal value).Emits environment := by
  intro position
  refine ⟨placedPieces position [.plain text], by simp only [pieces, hvalue]; rfl, ?_⟩
  rw [emitted_placed]
  rfl

theorem emits_identifier (name : String) : (identifier name).Emits environment := by
  intro position
  refine ⟨_, by simp only [pieces]; rfl, ?_⟩
  rw [emitted_placed]
  rfl

theorem emits_call {name : String} {arguments : List Node}
    (harguments : ∀ argument ∈ arguments, argument.Emits environment) :
    (call name arguments).Emits environment := by
  intro position
  obtain ⟨texts, htexts, hnames⟩ := emits_all harguments .expression
  refine ⟨_, by simp only [pieces, htexts]; rfl, ?_⟩
  rw [references_eq_children rfl]
  simp [children, hnames]

theorem emits_binary {operator : String} {left right : Node} (hleft : left.Emits environment)
    (hright : right.Emits environment) : (binary operator left right).Emits environment := by
  intro position
  obtain ⟨leftText, hleftText, hleftNames⟩ := hleft .expression
  obtain ⟨rightText, hrightText, hrightNames⟩ := hright .expression
  refine ⟨_, by simp only [pieces, hleftText, hrightText]; rfl, ?_⟩
  rw [references_eq_children rfl]
  simp [children, hleftNames, hrightNames]

theorem emits_unary {operator : String} {operand : Node} (hoperand : operand.Emits environment) :
    (unary operator operand).Emits environment := by
  intro position
  obtain ⟨text, htext, hnames⟩ := hoperand .expression
  refine ⟨_, by simp only [pieces, htext]; rfl, ?_⟩
  rw [references_eq_children rfl]
  simp [children, hnames]

theorem emits_conditional {condition whenTrue whenFalse : Node}
    (hcondition : condition.Emits environment) (htrue : whenTrue.Emits environment)
    (hfalse : whenFalse.Emits environment) :
    (conditional condition whenTrue whenFalse).Emits environment := by
  intro position
  obtain ⟨conditionText, hconditionText, hconditionNames⟩ := hcondition .expression
  obtain ⟨trueText, htrueText, htrueNames⟩ := htrue .expression
  obtain ⟨falseText, hfalseText, hfalseNames⟩ := hfalse .expression
  refine ⟨_, by simp only [pieces, hconditionText, htrueText, hfalseText]; rfl, ?_⟩
  rw [references_eq_children rfl]
  simp [children, hconditionNames, htrueNames, hfalseNames]

theorem emits_swizzle {operand : Node} {selection : Swizzle}
    (hoperand : operand.Emits environment) (harity : selection.arity ≠ 0)
    (hpattern : selection.pattern ≠ "") : (swizzle operand selection).Emits environment := by
  intro position
  by_cases henvironment : isEnvironment environment operand = true
  · refine ⟨placedPieces position [.member selection.pattern],
      by simp only [pieces, harity, henvironment, if_true, if_false]; rfl, ?_⟩
    rw [references_eq (by nofun)]
    simp [children, Program.environmentMember?, henvironment, hpattern,
      references_of_isEnvironment henvironment]
  · obtain ⟨text, htext, hnames⟩ := hoperand .expression
    refine ⟨_, by simp only [pieces, harity, henvironment, if_false, htext]; rfl, ?_⟩
    rw [references_eq (by nofun)]
    simp [children, Program.environmentMember?, henvironment, hnames]

theorem emits_member {operand : Node} {field : String} (hoperand : operand.Emits environment)
    (hfield : field ≠ "") : (member operand field).Emits environment := by
  intro position
  by_cases henvironment : isEnvironment environment operand = true
  · refine ⟨placedPieces position [.member field],
      by simp only [pieces, henvironment, if_true]; rfl, ?_⟩
    rw [references_eq (by nofun)]
    simp [children, Program.environmentMember?, henvironment, hfield,
      references_of_isEnvironment henvironment]
  · obtain ⟨text, htext, hnames⟩ := hoperand .expression
    refine ⟨_, by simp only [pieces, henvironment, htext]; rfl, ?_⟩
    rw [references_eq (by nofun)]
    simp [children, Program.environmentMember?, henvironment, hnames]

theorem emits_index {operand selected : Node} (hoperand : operand.Emits environment)
    (hselected : selected.Emits environment) : (index operand selected).Emits environment := by
  intro position
  obtain ⟨text, htext, hnames⟩ := hoperand .expression
  obtain ⟨selectedText, hselectedText, hselectedNames⟩ := hselected .expression
  refine ⟨_, by simp only [pieces, htext, hselectedText]; rfl, ?_⟩
  rw [references_eq_children rfl]
  simp [children, hnames, hselectedNames]

theorem emits_assignment {target value : Node} (htarget : target.Emits environment)
    (hvalue : value.Emits environment) : (assignment target value).Emits environment := by
  intro position
  obtain ⟨targetText, htargetText, htargetNames⟩ := htarget .expression
  obtain ⟨valueText, hvalueText, hvalueNames⟩ := hvalue .expression
  refine ⟨_, by simp only [pieces, htargetText, hvalueText]; rfl, ?_⟩
  rw [references_eq_children rfl]
  simp [children, htargetNames, hvalueNames]

theorem emits_declaration {type name : String} {value : Node}
    (hvalue : value = .absent ∨ value.Emits environment) :
    (declaration type name value).Emits environment := by
  intro position
  rcases hvalue with rfl | hvalue
  · exact ⟨statementPieces position [.plain (type ++ " " ++ name)], by simp only [pieces]; rfl,
      by rw [emitted_statement]; rfl⟩
  · obtain ⟨text, htext, hnames⟩ := hvalue .expression
    refine ⟨_, by simp only [pieces, hvalue.present, htext]; rfl, ?_⟩
    rw [references_eq_children rfl]
    simp [children, hnames]

theorem emits_result {value : Node} (hvalue : value = .absent ∨ value.Emits environment) :
    (result value).Emits environment := by
  intro position
  rcases hvalue with rfl | hvalue
  · exact ⟨statementPieces position [.plain "return"], by simp only [pieces]; rfl,
      by rw [emitted_statement]; rfl⟩
  · obtain ⟨text, htext, hnames⟩ := hvalue .expression
    refine ⟨_, by simp only [pieces, hvalue.present, htext]; rfl, ?_⟩
    rw [references_eq_children rfl]
    simp [children, hnames]

theorem emits_function {name returnType : String} {parameters : List Parameter}
    {body : List Node} (hbody : ∀ statement ∈ body, statement.Emits environment) :
    (function name returnType parameters body).Emits environment := by
  intro position
  obtain ⟨lines, hlines, hnames⟩ := emits_all hbody (.statement (position.depth + 1))
  refine ⟨_, by simp only [pieces, hlines]; rfl, ?_⟩
  rw [references_eq_children rfl]
  simp [children, hnames]

theorem emits_block {name : String} {statements : List Node}
    (hstatements : ∀ statement ∈ statements, statement.Emits environment) :
    (block name statements).Emits environment := by
  intro position
  obtain ⟨lines, hlines, hnames⟩ := emits_all hstatements (.statement position.depth)
  refine ⟨_, by simp only [pieces, hlines]; rfl, ?_⟩
  rw [references_eq_children rfl]
  simp [children, hnames]

theorem Built.emits {node : Node} (hbuilt : node.Built) : node.Emits environment := by
  induction hbuilt with
  | literal hvalue => exact emits_literal hvalue
  | @identifier name node hbuilt =>
      rw [Build.eq_identifier hbuilt]
      exact emits_identifier name
  | call harguments hbuilt ih =>
      rw [Build.eq_call hbuilt]
      exact emits_call ih
  | binary hleft hright hbuilt ihLeft ihRight =>
      rw [(Build.eq_binary hbuilt).1]
      exact emits_binary ihLeft ihRight
  | unary hoperand hbuilt ih =>
      rw [(Build.eq_unary hbuilt).1]
      exact emits_unary ih
  | conditional hcondition htrue hfalse hbuilt ihCondition ihTrue ihFalse =>
      rw [Build.eq_conditional hbuilt]
      exact emits_conditional ihCondition ihTrue ihFalse
  | swizzle hoperand hbuilt ih =>
      obtain ⟨selection, hselection, rfl⟩ := Build.eq_swizzle hbuilt
      have hpattern : selection.pattern ≠ "" := by
        intro hempty
        exact (Swizzle.pattern_letters hselection).1 (by rw [hempty]; rfl)
      exact emits_swizzle ih (Swizzle.ofPattern_spec hselection).2.1 hpattern
  | member hoperand hbuilt ih =>
      rw [Build.eq_member hbuilt]
      exact emits_member ih (Build.field_ne_of_member hbuilt)
  | index hoperand hposition hbuilt ihOperand ihPosition =>
      rw [Build.eq_index hbuilt]
      exact emits_index ihOperand ihPosition
  | assignment htarget hvalue hbuilt ihTarget ihValue =>
      rw [Build.eq_assignment hbuilt]
      exact emits_assignment ihTarget ihValue
  | bareDeclaration hbuilt =>
      rw [Build.eq_declaration hbuilt]
      exact emits_declaration (.inl rfl)
  | declaration hvalue hbuilt ih =>
      rw [Build.eq_declaration hbuilt]
      exact emits_declaration (.inr ih)
  | bareResult => exact emits_result (.inl rfl)
  | result hvalue ih => exact emits_result (.inr ih)
  | function hbody hbuilt ih =>
      rw [Build.eq_definition hbuilt]
      exact emits_function ih
  | block hstatements hbuilt ih =>
      rw [Build.eq_block hbuilt]
      exact emits_block ih

end Emission

theorem mapM_renderWith_definitions (environment : String) (definitions : List Definition) :
    definitions.mapM (·.toNode.renderWith environment) =
      renderAll environment (.statement 0) (definitions.map Definition.toNode) := by
  induction definitions with
  | nil => rfl
  | cons definition rest ih =>
      rw [List.mapM_cons, ih]
      rfl

end Node

/-! ## The pieces of a program -/

namespace Program

/-- The text of a program in pieces, with the blank space around it. -/
def pieces (program : Program) : Except RenderError (List Piece) := do
  let environment := program.environment
  let definitions ← Node.piecesAll environment (.statement 0)
    (program.definitions.map Definition.toNode)
  let main ← program.main.pieces environment
    (if program.main.isStatement then .statement 0 else .expression)
  return linePieces definitions ++ main

theorem render_eq_written {program : Program} (hmain : program.main.isAbsent = false) :
    program.render = (fun text => Text.trimBlank (written text)) <$> program.pieces := by
  unfold render pieces
  simp only [hmain, Node.mapM_renderWith_definitions, Node.renderAll_eq_written]
  simp only [Node.renderWith, Node.renderIn_eq_written, map_bind, bind_map_left, map_pure,
    written_append, written_lines]
  rfl

/-- Collecting names that are not yet met keeps the first of each. -/
theorem foldl_unmet (names : List String) :
    names.foldl (fun members name => if name ∈ members then members else members ++ [name]) [] =
      names.eraseDups := by
  induction names using List.reverseRecOn with
  | nil => rfl
  | append_singleton names name ih =>
      rw [List.foldl_append, ih, List.eraseDups_append]
      by_cases hmet : name ∈ names
      · simp [hmet, List.removeAll]
      · simp [hmet, List.removeAll, List.eraseDups_cons]

theorem environmentMembers_eq_eraseDups (program : Program) :
    program.environmentMembers =
      (Node.referencesAll program.environment program.trees).eraseDups :=
  foldl_unmet _

/-- The members that a program lists are the names in its text that stand for members. -/
theorem exists_pieces {program : Program} (hbuilt : ∀ tree ∈ program.trees, tree.Built) :
    ∃ text, program.pieces = .ok text ∧
      program.render = .ok (Text.trimBlank (written text)) ∧
      emitted text = Node.referencesAll program.environment program.trees := by
  have hmain : program.main.Emits program.environment :=
    (hbuilt program.main (by simp [trees])).emits
  have hdefinitions : ∀ node ∈ program.definitions.map Definition.toNode,
      node.Emits program.environment := by
    intro node hnode
    exact (hbuilt node (by simp only [trees, List.mem_append, hnode, true_or])).emits
  obtain ⟨lines, hlines, hlineNames⟩ := Node.emits_all hdefinitions (.statement 0)
  obtain ⟨mainText, hmainText, hmainNames⟩ :=
    hmain (if program.main.isStatement then .statement 0 else .expression)
  have hpieces : program.pieces = .ok (linePieces lines ++ mainText) := by
    simp only [pieces, hlines, hmainText]
    rfl
  refine ⟨_, hpieces, ?_, ?_⟩
  · rw [render_eq_written hmain.present, hpieces]
    rfl
  · rw [emitted_append, emitted_lines, hlineNames, hmainNames, trees, Node.referencesAll_append]
    simp

theorem referencesAll_of_environment_eq {program : Program} (hnone : program.environment = "") :
    Node.referencesAll program.environment program.trees = [] := by
  have hnever : ∀ node, environmentMember? "" node = none := by
    intro node
    cases node with
    | member operand field => simp [environmentMember?, Node.isEnvironment_empty]
    | swizzle operand selection => simp [environmentMember?, Node.isEnvironment_empty]
    | _ => rfl
  rw [hnone]
  exact List.filterMap_eq_nil_iff.mpr fun node _ => hnever node

end Program

theorem Node.isFragmentMain_iff {node : Node} :
    node.isFragmentMain = true ↔ ∃ body, node = .function "main" "void" [] body := by
  cases node with
  | function name returnType parameters body =>
      simp [isFragmentMain, asFunction?, and_assoc]
  | _ => simp [isFragmentMain, asFunction?]

namespace Program

/-- A fragment shader is written if the entry is a main function, every global is complete and
declares what it has to, and the program itself has a text. -/
theorem fragmentShader_eq_ok_iff {program : Program} {globals : List Global} {text : String} :
    program.fragmentShader globals = .ok text ↔
      (∃ body, program.main = .function "main" "void" [] body) ∧
        (∀ g ∈ globals, g.name ≠ "" ∧ g.type ≠ "") ∧
        (∀ name ∈ program.environmentMembers, ∃ g ∈ globals, g.name = name) ∧
        ∃ source, program.render = .ok source ∧
          text = versionDirective ++ String.join (globals.map Global.declaration) ++ "\n" ++
            source ++ "\n" := by
  have hcomplete : ((globals.any fun g => g.name == "" || g.type == "") = true) ↔
      ¬ ∀ g ∈ globals, g.name ≠ "" ∧ g.type ≠ "" := by
    simp [not_or, imp_iff_not_or]
  have hdeclared : (program.environmentMembers.find? fun member =>
      !globals.any (·.name == member)) = none ↔
        ∀ name ∈ program.environmentMembers, ∃ g ∈ globals, g.name = name := by
    simp [List.find?_eq_none]
  rw [← Node.isFragmentMain_iff, ← hdeclared]
  unfold fragmentShader
  by_cases hmain : program.main.isFragmentMain = true
  · by_cases hglobals : ∀ g ∈ globals, g.name ≠ "" ∧ g.type ≠ ""
    · rw [if_neg (by simp [hmain]), if_neg (hcomplete.not.mpr (not_not.mpr hglobals))]
      cases program.environmentMembers.find? fun member => !globals.any (·.name == member) with
      | some member => simp
      | none =>
          cases program.render with
          | error cause => simp
          | ok source =>
              constructor
              · intro hshader
                exact ⟨hmain, hglobals, rfl, source, rfl, (Except.ok.inj hshader).symm⟩
              · rintro ⟨-, -, -, _, hsource, rfl⟩
                rw [Except.ok.inj hsource]
    · rw [if_neg (by simp [hmain]), if_pos (hcomplete.mpr hglobals)]
      simp [hglobals]
  · simp [hmain]

/-- What a fragment shader needs of its program and its globals, with names that are flattened. -/
def Declares (program : Program) (globals : List Global) (names : List String) : Prop :=
  (∃ body, program.main = .function "main" "void" [] body) ∧
    (∀ g ∈ globals, g.name ≠ "" ∧ g.type ≠ "") ∧ ∀ name ∈ names, ∃ g ∈ globals, g.name = name

theorem fragmentShader_ne_writing (program : Program) (globals : List Global) (reason : String) :
    program.fragmentShader globals ≠ .error (.writing reason) := by
  unfold fragmentShader
  split_ifs
  · simp
  · simp
  · split
    · simp
    · split <;> simp

section Writing

variable {program : Program} {globals : List Global} {ω : Type} (writer : Writer ω) (sink : ω)

theorem writeFragment_of_ok {shader : String}
    (hshader : program.fragmentShader globals = .ok shader) :
    program.writeFragment globals writer sink = writer.deliver .writing shader sink := by
  rw [writeFragment, hshader]

theorem writeFragment_of_not_ok
    (hnone : ∀ shader, program.fragmentShader globals ≠ .ok shader) :
    ∃ cause, program.writeFragment globals writer sink = ⟨0, .error cause, sink⟩ ∧
      ∀ reason, cause ≠ .writing reason := by
  cases hfragment : program.fragmentShader globals with
  | ok shader => exact absurd hfragment (hnone shader)
  | error cause =>
      refine ⟨cause, by rw [writeFragment, hfragment], ?_⟩
      rintro reason rfl
      exact fragmentShader_ne_writing program globals reason hfragment

end Writing

/-- The members that a program lists are the names in its text that stand for members of the
environment.  A fragment shader is written, at once and as a whole, exactly if its globals declare
all of them; otherwise the writer is given nothing. -/
theorem writeFragment_declares_emitted {program : Program}
    (hbuilt : ∀ tree ∈ program.trees, tree.Built) :
    (∀ text, Text.Trims text (Text.trimBlank text)) ∧
    ∃ text, program.pieces = .ok text ∧
      program.render = .ok (Text.trimBlank (written text)) ∧
      program.environmentMembers = (emitted text).eraseDups ∧
      (program.environment = "" → program.environmentMembers = []) ∧
      ∀ {ω : Type} (globals : List Global) (writer : Writer ω) (sink : ω),
        let shader := "#version 430\n" ++ String.join (globals.map fun g =>
            (if g.qualifier = "" then "" else g.qualifier ++ " ") ++ g.type ++ " " ++ g.name ++
              ";\n") ++ "\n" ++ Text.trimBlank (written text) ++ "\n"
        let offered := writer.write (Text.bytes shader) sink
        let delivery := program.writeFragment globals writer sink
        (delivery.outcome = .ok () ↔
          Declares program globals (emitted text) ∧ offered.outcome = .ok ()) ∧
        (Declares program globals (emitted text) →
          delivery = ⟨offered.count, offered.outcome.mapError .writing, offered.sink⟩) ∧
        (¬ Declares program globals (emitted text) →
          ∃ cause, delivery = ⟨0, .error cause, sink⟩ ∧ ∀ reason, cause ≠ .writing reason) := by
  refine ⟨Text.trims_trimBlank, ?_⟩
  obtain ⟨text, hpieces, hrender, hnames⟩ := exists_pieces hbuilt
  have hmembers : program.environmentMembers = (emitted text).eraseDups := by
    rw [environmentMembers_eq_eraseDups, hnames]
  have hnone : program.environment = "" → program.environmentMembers = [] := by
    intro henvironment
    rw [environmentMembers_eq_eraseDups, referencesAll_of_environment_eq henvironment]
    rfl
  refine ⟨text, hpieces, hrender, hmembers, hnone, ?_⟩
  intro ω globals writer sink shader offered delivery
  have hshader : ∀ other, program.fragmentShader globals = .ok other ↔
      Declares program globals (emitted text) ∧ other = shader := by
    intro other
    simp only [fragmentShader_eq_ok_iff, hrender, hmembers, List.mem_eraseDups, Except.ok.injEq,
      exists_eq_left', Declares, and_assoc]
    rfl
  have hdeclared : Declares program globals (emitted text) →
      delivery = ⟨offered.count, offered.outcome.mapError .writing, offered.sink⟩ :=
    fun hdeclares => writeFragment_of_ok writer sink ((hshader shader).mpr ⟨hdeclares, rfl⟩)
  have hrefused : ¬ Declares program globals (emitted text) →
      ∃ cause, delivery = ⟨0, .error cause, sink⟩ ∧ ∀ reason, cause ≠ .writing reason :=
    fun hnot => writeFragment_of_not_ok writer sink fun other hother =>
      hnot ((hshader other).mp hother).1
  refine ⟨?_, hdeclared, hrefused⟩
  by_cases hdeclares : Declares program globals (emitted text)
  · rw [hdeclared hdeclares]
    cases offered.outcome <;> simp [hdeclares, Except.mapError]
  · obtain ⟨cause, hdelivery, -⟩ := hrefused hdeclares
    rw [hdelivery]
    simp [hdeclares]

section Pulsing

def environmentField (field : String) : Node := .member (.identifier "Env") field

def pulse : Node :=
  .result (.binary "*" (.swizzle (.identifier "p") ⟨2, "x", [0]⟩) (environmentField "time"))

def glowing : Node :=
  .assignment (environmentField "glow")
    (.binary "*" (.call "pulse" [.swizzle (.identifier "Env") ⟨2, "xy", [0, 1]⟩])
      (environmentField "time"))

def pulsing : Program :=
  ⟨[⟨"pulse", "float", [⟨"vec2", "p"⟩], [pulse]⟩],
    .function "main" "void" [] [.block "Env" [glowing]]⟩

theorem built_environmentField (field : String) (hfield : field ≠ "") :
    (environmentField field).Built :=
  .member (.identifier (show Build.identifier "Env" = _ from rfl)) (if_neg hfield)

theorem built_pulse : pulse.Built := by
  have hposition : (Node.identifier "p").Built :=
    .identifier (show Build.identifier "p" = _ from rfl)
  have hfirst : (Node.swizzle (.identifier "p") ⟨2, "x", [0]⟩).Built :=
    @Node.Built.swizzle _ _ 2 "x" hposition rfl
  exact .result
    (@Node.Built.binary "*" _ _ _ hfirst (built_environmentField "time" (by decide)) rfl)

theorem built_glowing : glowing.Built := by
  have henvironment : (Node.identifier "Env").Built :=
    .identifier (show Build.identifier "Env" = _ from rfl)
  have hplace : (Node.swizzle (.identifier "Env") ⟨2, "xy", [0, 1]⟩).Built :=
    @Node.Built.swizzle _ _ 2 "xy" henvironment rfl
  have hcall : (Node.call "pulse" [.swizzle (.identifier "Env") ⟨2, "xy", [0, 1]⟩]).Built :=
    @Node.Built.call "pulse" _ _ (List.forall_mem_singleton.mpr hplace) rfl
  exact .assignment (built_environmentField "glow" (by decide))
    (@Node.Built.binary "*" _ _ _ hcall (built_environmentField "time" (by decide)) rfl) rfl

theorem pulsing_built : ∀ tree ∈ pulsing.trees, tree.Built := by
  have hblock : (Node.block "Env" [glowing]).Built :=
    .block (List.forall_mem_singleton.mpr built_glowing) rfl
  intro tree htree
  have hcases : tree = Definition.toNode ⟨"pulse", "float", [⟨"vec2", "p"⟩], [pulse]⟩ ∨
      tree = Definition.toNode ⟨"main", "void", [], [.block "Env" [glowing]]⟩ := by
    simpa [trees, pulsing, Definition.toNode] using htree
  rcases hcases with rfl | rfl
  · exact @Node.Built.function "float" "pulse" [⟨"vec2", "p"⟩] _ _
      (List.forall_mem_singleton.mpr built_pulse) rfl
  · exact @Node.Built.function "void" "main" [] _ _ (List.forall_mem_singleton.mpr hblock) rfl

/-- A writer that keeps what it is given behind what it has. -/
def keeping : Writer (List UInt8) where
  write bytes sink := ⟨bytes.length, .ok (), sink ++ bytes⟩

theorem writeFragment_declares_emitted_pulsing :
    let globals : List Global :=
      [⟨"uniform", "float", "time"⟩, ⟨"out", "float", "glow"⟩, ⟨"", "vec2", "xy"⟩]
    (∀ tree ∈ pulsing.trees, tree.Built) ∧
      pulsing.environmentMembers = ["time", "glow", "xy"] ∧
      (pulsing.writeFragment globals keeping [7]).outcome = .ok () ∧
      ∃ source, pulsing.render = .ok source ∧
        (pulsing.writeFragment globals keeping [7]).sink = 7 :: Text.bytes
          ("#version 430\nuniform float time;\nout float glow;\nvec2 xy;\n\n" ++ source ++
            "\n") := by
  intro globals
  have hmembers : pulsing.environmentMembers = ["time", "glow", "xy"] := by decide
  obtain ⟨-, text, -, hrender, hemitted, -, hwritten⟩ :=
    writeFragment_declares_emitted pulsing_built
  obtain ⟨hok, hdelivery, -⟩ := hwritten globals keeping [7]
  have hdeclares : Declares pulsing globals (emitted text) := by
    refine ⟨⟨_, rfl⟩, by decide, fun name hname => ?_⟩
    rw [← List.mem_eraseDups, ← hemitted, hmembers] at hname
    revert name
    decide
  have hdeclarations : "#version 430\n" ++ String.join (globals.map fun g =>
      (if g.qualifier = "" then "" else g.qualifier ++ " ") ++ g.type ++ " " ++ g.name ++ ";\n") ++
        "\n" = "#version 430\nuniform float time;\nout float glow;\nvec2 xy;\n\n" := by decide
  refine ⟨pulsing_built, hmembers, hok.mpr ⟨hdeclares, rfl⟩, _, hrender, ?_⟩
  rw [hdelivery hdeclares, hdeclarations]
  exact List.singleton_append

end Pulsing

end Program

end NoiseShader
