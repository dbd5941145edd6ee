import NoiseShader.Proofs.Program.Flattening
import NoiseShader.Proofs.Syntax.Splicing
import Mathlib.Tactic

/-!
# Names of variables in the text

A template is a text with holes for a name.  Writing a tree gives a template with
one hole for each place of a variable: when another variable stands in these
places, its name stands in the holes and the rest of the text is as it was.

The name of the environment is the one exception, both as the name that is
replaced and as the name that takes its place.
-/

namespace NoiseShader

/-- A text with holes. -/
abbrev Template := List (Option String)

namespace Template

def fill (name : String) (template : Template) : String :=
  String.join (template.map (·.getD name))

def holes (template : Template) : ℕ := template.count none

@[simp] theorem fill_nil (name : String) : fill name [] = "" := rfl

@[simp] theorem fill_cons (name : String) (piece : Option String) (rest : Template) :
    fill name (piece :: rest) = piece.getD name ++ fill name rest := by
  simp [fill]

@[simp] theorem fill_append (name : String) (front back : Template) :
    fill name (front ++ back) = fill name front ++ fill name back := by
  simp [fill]

@[simp] theorem holes_nil : holes [] = 0 := rfl

@[simp] theorem holes_some (text : String) (rest : Template) :
    holes (some text :: rest) = holes rest := by
  simp [holes]

@[simp] theorem holes_none (rest : Template) : holes (none :: rest) = holes rest + 1 := by
  simp [holes]

@[simp] theorem holes_append (front back : Template) :
    holes (front ++ back) = holes front + holes back :=
  List.count_append

def separated (separator : String) : List Template → Template
  | [] => []
  | [last] => last
  | first :: rest => first ++ some separator :: separated separator rest

theorem fill_separated (name separator : String) (templates : List Template) :
    fill name (separated separator templates) =
      separator.intercalate (templates.map (fill name)) := by
  fun_induction separated separator templates with
  | case1 => simp
  | case2 last => simp
  | case3 first rest hrest ih =>
      obtain ⟨second, others, rfl⟩ := List.exists_cons_of_ne_nil hrest
      simp only [List.map_cons] at ih ⊢
      simp [ih, String.append_assoc]

theorem holes_separated (separator : String) (templates : List Template) :
    holes (separated separator templates) = (templates.map holes).sum := by
  fun_induction separated separator templates with
  | case1 => rfl
  | case2 last => simp
  | case3 first rest hrest ih => simp [ih]

def onLines (templates : List Template) : Template := templates.flatMap (· ++ [some "\n"])

theorem fill_onLines (name : String) (templates : List Template) :
    fill name (onLines templates) = Node.lines (templates.map (fill name)) := by
  induction templates with
  | nil => rfl
  | cons first rest ih =>
      simp only [onLines, Node.lines, List.map_map] at ih ⊢
      simp [ih, String.append_assoc]

theorem holes_onLines (templates : List Template) :
    holes (onLines templates) = (templates.map holes).sum := by
  induction templates with
  | nil => rfl
  | cons first rest ih =>
      simp only [onLines] at ih ⊢
      simp [ih]

end Template

/-! ## Texts that depend on a name -/

/-- Whatever the name, except for that of the environment, writing fails in the same way, or it
fills a template with the given number of holes. -/
inductive Keeps (environment : String) (count : ℕ) (text : String → Except RenderError String) :
    Prop
  | fails (cause : RenderError) (hfails : ∀ name, name ≠ environment → text name = .error cause)
  | fills (template : Template) (hholes : template.holes = count)
      (hfills : ∀ name, name ≠ environment → text name = .ok (template.fill name))

/-- The same for a list of texts, with a template for each. -/
inductive KeepsAll (environment : String) (count : ℕ)
    (texts : String → Except RenderError (List String)) : Prop
  | fails (cause : RenderError) (hfails : ∀ name, name ≠ environment → texts name = .error cause)
  | fills (templates : List Template) (hholes : (templates.map Template.holes).sum = count)
      (hfills : ∀ name, name ≠ environment →
        texts name = .ok (templates.map (Template.fill name)))

namespace Keeps

variable {environment : String} {count others : ℕ} {text rest : String → Except RenderError String}

theorem congr (hkeeps : Keeps environment count text)
    (hsame : ∀ name, name ≠ environment → rest name = text name) :
    Keeps environment count rest := by
  cases hkeeps with
  | fails cause hfails =>
      exact .fails cause fun name hname => (hsame name hname).trans (hfails name hname)
  | fills template hholes hfills =>
      exact .fills template hholes fun name hname => (hsame name hname).trans (hfills name hname)

theorem constant (result : Except RenderError String) : Keeps environment 0 fun _ => result := by
  cases result with
  | error cause => exact .fails cause fun _ _ => rfl
  | ok text => exact .fills [some text] (by simp) fun name _ => by simp

theorem hole : Keeps environment 1 fun name => .ok name :=
  .fills [none] (by simp) fun name _ => by simp

theorem around (hkeeps : Keeps environment count text) (before after : String) :
    Keeps environment count fun name => (fun inner => before ++ inner ++ after) <$> text name := by
  cases hkeeps with
  | fails cause hfails => exact .fails cause fun name hname => by rw [hfails name hname]; rfl
  | fills template hholes hfills =>
      refine .fills (some before :: template ++ [some after]) (by simpa using hholes) ?_
      intro name hname
      simp [hfills name hname, String.append_assoc]

theorem placed (hkeeps : Keeps environment count text) (position : Position) :
    Keeps environment count fun name => NoiseShader.placed position <$> text name := by
  cases position with
  | expression => exact hkeeps.congr fun name _ => id_map (text name)
  | statement depth => exact hkeeps.around (indentation depth) ";"

theorem statementText (hkeeps : Keeps environment count text) (position : Position) :
    Keeps environment count fun name => NoiseShader.statementText position <$> text name :=
  hkeeps.around (indentation position.depth) ";"

theorem parenthesized (hkeeps : Keeps environment count text) (inside : Bool) :
    Keeps environment count fun name => NoiseShader.parenthesized inside <$> text name := by
  cases inside with
  | false => exact hkeeps.congr fun name _ => id_map (text name)
  | true => exact hkeeps.around "(" ")"

theorem joined (hkeeps : Keeps environment count text) (between : String)
    (hrest : Keeps environment others rest) :
    Keeps environment (count + others) fun name => do
      let first ← text name
      let second ← rest name
      return first ++ between ++ second := by
  cases hkeeps with
  | fails cause hfails => exact .fails cause fun name hname => by rw [hfails name hname]; rfl
  | fills template hholes hfills =>
      cases hrest with
      | fails cause hfails' =>
          refine .fails cause fun name hname => ?_
          rw [hfails' name hname, hfills name hname]
          rfl
      | fills template' hholes' hfills' =>
          refine .fills (template ++ some between :: template') (by simp [hholes, hholes']) ?_
          intro name hname
          rw [hfills name hname, hfills' name hname]
          simp [bind, Except.bind, pure, Except.pure, String.append_assoc]

end Keeps

namespace KeepsAll

variable {environment : String} {count others : ℕ}
  {texts : String → Except RenderError (List String)}

theorem nil : KeepsAll environment 0 fun _ => .ok [] := .fills [] rfl fun _ _ => rfl

theorem cons {text : String → Except RenderError String} (hfirst : Keeps environment count text)
    (hrest : KeepsAll environment others texts) :
    KeepsAll environment (count + others) fun name => do
      let first ← text name
      let rest ← texts name
      return first :: rest := by
  cases hfirst with
  | fails cause hfails => exact .fails cause fun name hname => by rw [hfails name hname]; rfl
  | fills template hholes hfills =>
      cases hrest with
      | fails cause hfails' =>
          refine .fails cause fun name hname => ?_
          rw [hfails' name hname, hfills name hname]
          rfl
      | fills templates hholes' hfills' =>
          refine .fills (template :: templates) (by simp [hholes, hholes']) ?_
          intro name hname
          rw [hfills name hname, hfills' name hname]
          rfl

theorem separated (hkeeps : KeepsAll environment count texts) (separator : String) :
    Keeps environment count fun name => separator.intercalate <$> texts name := by
  cases hkeeps with
  | fails cause hfails => exact .fails cause fun name hname => by rw [hfails name hname]; rfl
  | fills templates hholes hfills =>
      refine .fills (Template.separated separator templates) ?_ ?_
      · rw [Template.holes_separated, hholes]
      · intro name hname
        rw [hfills name hname, Template.fill_separated]
        rfl

theorem lines (hkeeps : KeepsAll environment count texts) :
    Keeps environment count fun name => Node.lines <$> texts name := by
  cases hkeeps with
  | fails cause hfails => exact .fails cause fun name hname => by rw [hfails name hname]; rfl
  | fills templates hholes hfills =>
      refine .fills (Template.onLines templates) ?_ ?_
      · rw [Template.holes_onLines, hholes]
      · intro name hname
        rw [hfills name hname, Template.fill_onLines]
        rfl

end KeepsAll

namespace Node

mutual

/-- The tree in which another variable stands wherever one stood. -/
def rename (old new : String) : Node → Node
  | absent => absent
  | literal value => literal value
  | identifier name => identifier (if name = old then new else name)
  | call name arguments => call name (renameAll old new arguments)
  | binary operator left right => binary operator (rename old new left) (rename old new right)
  | unary operator operand => unary operator (rename old new operand)
  | conditional condition whenTrue whenFalse =>
    conditional (rename old new condition) (rename old new whenTrue) (rename old new whenFalse)
  | swizzle operand selection => swizzle (rename old new operand) selection
  | member operand field => member (rename old new operand) field
  | index operand position => index (rename old new operand) (rename old new position)
  | assignment target value => assignment (rename old new target) (rename old new value)
  | declaration type name value => declaration type name (rename old new value)
  | result value => result (rename old new value)
  | function name returnType parameters body =>
    function name returnType parameters (renameAll old new body)
  | block name statements => block name (renameAll old new statements)
  | reference target => reference target

def renameAll (old new : String) : List Node → List Node
  | [] => []
  | node :: rest => rename old new node :: renameAll old new rest

end

mutual

theorem rename_self (name : String) (node : Node) : node.rename name name = node := by
  cases node with
  | identifier other =>
      rw [rename]
      split_ifs with hname
      · rw [hname]
      · rfl
  | absent | literal | reference => rfl
  | call _ arguments => rw [rename, renameAll_self name arguments]
  | binary _ left right => rw [rename, rename_self name left, rename_self name right]
  | unary _ operand => rw [rename, rename_self name operand]
  | conditional condition whenTrue whenFalse =>
      rw [rename, rename_self name condition, rename_self name whenTrue,
        rename_self name whenFalse]
  | swizzle operand _ => rw [rename, rename_self name operand]
  | member operand _ => rw [rename, rename_self name operand]
  | index operand position => rw [rename, rename_self name operand, rename_self name position]
  | assignment target value => rw [rename, rename_self name target, rename_self name value]
  | declaration _ _ value => rw [rename, rename_self name value]
  | result value => rw [rename, rename_self name value]
  | function _ _ _ body => rw [rename, renameAll_self name body]
  | block _ statements => rw [rename, renameAll_self name statements]

theorem renameAll_self (name : String) (nodes : List Node) : renameAll name name nodes = nodes := by
  cases nodes with
  | nil => rfl
  | cons node rest => rw [renameAll, rename_self name node, renameAll_self name rest]

end

mutual

theorem preorder_rename (old new : String) (node : Node) :
    (node.rename old new).preorder = node.preorder.map (rename old new) := by
  cases node with
  | absent | literal | identifier | reference => simp [rename, preorder]
  | call _ arguments => simp [rename, preorder, preorderAll_renameAll old new arguments]
  | binary _ left right =>
      simp [rename, preorder, preorder_rename old new left, preorder_rename old new right]
  | unary _ operand => simp [rename, preorder, preorder_rename old new operand]
  | conditional condition whenTrue whenFalse =>
      simp [rename, preorder, preorder_rename old new condition,
        preorder_rename old new whenTrue, preorder_rename old new whenFalse]
  | swizzle operand _ => simp [rename, preorder, preorder_rename old new operand]
  | member operand _ => simp [rename, preorder, preorder_rename old new operand]
  | index operand position =>
      simp [rename, preorder, preorder_rename old new operand, preorder_rename old new position]
  | assignment target value =>
      simp [rename, preorder, preorder_rename old new target, preorder_rename old new value]
  | declaration _ _ value => simp [rename, preorder, preorder_rename old new value]
  | result value => simp [rename, preorder, preorder_rename old new value]
  | function _ _ _ body => simp [rename, preorder, preorderAll_renameAll old new body]
  | block _ statements => simp [rename, preorder, preorderAll_renameAll old new statements]

theorem preorderAll_renameAll (old new : String) (nodes : List Node) :
    preorderAll (renameAll old new nodes) = (preorderAll nodes).map (rename old new) := by
  cases nodes with
  | nil => rfl
  | cons node rest =>
      simp [renameAll, preorderAll, preorder_rename old new node,
        preorderAll_renameAll old new rest]

end

section Root

variable (old new : String) (node : Node)

theorem binding_rename : (node.rename old new).binding = node.binding := by
  cases node <;> simp [rename, binding]

theorem isAbsent_rename : (node.rename old new).isAbsent = node.isAbsent := by
  cases node <;> simp [rename, isAbsent]

theorem isStatement_rename : (node.rename old new).isStatement = node.isStatement := by
  cases node <;> simp [rename, isStatement]

theorem environmentName?_rename :
    (node.rename old new).environmentName? = node.environmentName? := by
  cases node <;> simp [rename, environmentName?]

end Root

theorem isEnvironment_rename {environment old new : String} (hold : old ≠ environment)
    (hnew : new ≠ environment) (node : Node) :
    (node.rename old new).isEnvironment environment = node.isEnvironment environment := by
  cases node with
  | identifier name =>
      rw [rename]
      split_ifs with hname
      · rw [isEnvironment, isEnvironment, hname, beq_false_of_ne hold, beq_false_of_ne hnew]
      · rfl
  | _ => simp [rename, isEnvironment]

/-- How often a variable stands in a tree. -/
def occurrences (name : String) (node : Node) : ℕ := node.preorder.countP (isNamed name)

def occurrencesAll (name : String) (nodes : List Node) : ℕ :=
  (preorderAll nodes).countP (isNamed name)

@[simp] theorem occurrencesAll_nil (name : String) : occurrencesAll name [] = 0 := rfl

@[simp] theorem occurrencesAll_cons (name : String) (node : Node) (rest : List Node) :
    occurrencesAll name (node :: rest) = node.occurrences name + occurrencesAll name rest := by
  simp [occurrencesAll, occurrences, preorderAll]

theorem occurrences_eq {name : String} {node : Node} (hother : node.isNamed name = false) :
    node.occurrences name = occurrencesAll name node.children := by
  by_cases habsent : node = absent
  · rw [habsent]
    rfl
  · simp [occurrences, occurrencesAll, preorder_eq habsent, hother]

theorem occurrences_child {name : String} {node child : Node} (hother : node.isNamed name = false)
    (hchildren : node.children = [child]) : node.occurrences name = child.occurrences name := by
  rw [occurrences_eq hother, hchildren, occurrencesAll_cons, occurrencesAll_nil, Nat.add_zero]

theorem occurrences_pair {name : String} {node first second : Node}
    (hother : node.isNamed name = false) (hchildren : node.children = [first, second]) :
    node.occurrences name = first.occurrences name + second.occurrences name := by
  rw [occurrences_eq hother, hchildren, occurrencesAll_cons, occurrencesAll_cons,
    occurrencesAll_nil, Nat.add_zero]

theorem occurrences_eq_zero {environment name : String} (hname : name ≠ environment) {node : Node}
    (henvironment : node.isEnvironment environment = true) : node.occurrences name = 0 := by
  cases node with
  | identifier other =>
      have hother : other = environment := by
        simp only [isEnvironment, Bool.and_eq_true, beq_iff_eq] at henvironment
        exact henvironment.2
      simp [occurrences, preorder, isNamed, hother, hname.symm]
  | _ => cases henvironment

/-! ## Writing a tree with another variable -/

section Writing

variable {environment name : String}

theorem keeps_identifier (position : Position) (referred : String) :
    Keeps environment ((identifier referred).occurrences name) fun other =>
      ((identifier referred).rename name other).renderIn environment position := by
  by_cases hreferred : referred = name
  · have hcount : (identifier referred).occurrences name = 1 := by
      simp [occurrences, preorder, isNamed, hreferred]
    rw [hcount]
    apply (Keeps.hole.placed position).congr
    intro other hother
    simp [rename, renderIn, isEnvironment, hreferred, hother, pure, Except.pure]
  · have hcount : (identifier referred).occurrences name = 0 := by
      simp [occurrences, preorder, isNamed, hreferred]
    rw [hcount]
    apply (Keeps.constant ((identifier referred).renderIn environment position)).congr
    intro other hother
    simp [rename, hreferred]

/-- A statement that may end in a value. -/
theorem keeps_optional {value : Node} {text : String → Except RenderError String}
    (hvalue : Keeps environment (value.occurrences name) text) (position : Position)
    (bare lead : String) :
    Keeps environment (value.occurrences name) fun other =>
      if value.isAbsent then .ok (statementText position bare)
      else (fun inner => statementText position (lead ++ inner)) <$> text other := by
  cases value with
  | absent => exact .constant (.ok (statementText position bare))
  | _ =>
      apply ((hvalue.around lead "").statementText position).congr
      intro other _
      simp [isAbsent]

mutual

theorem keeps_renderIn (hname : name ≠ environment) (position : Position) (node : Node) :
    Keeps environment (node.occurrences name) fun other =>
      (node.rename name other).renderIn environment position := by
  cases node with
  | absent => exact .constant _
  | literal value => exact .constant _
  | reference target => exact .constant _
  | identifier referred => exact keeps_identifier position referred
  | call function arguments =>
      have harguments := keeps_renderAll hname .expression arguments
      rw [occurrences_eq rfl, children]
      apply (((harguments.separated ", ").around (function ++ "(") ")").placed position).congr
      intro other _
      simp [rename, renderIn, String.append_assoc]
  | binary operator left right =>
      have hleft := (keeps_renderIn hname .expression left).parenthesized
        (needsParentheses left.binding (operatorBinding operator) false)
      have hright := (keeps_renderIn hname .expression right).parenthesized
        (needsParentheses right.binding (operatorBinding operator) true)
      rw [occurrences_pair rfl rfl]
      apply ((hleft.joined (" " ++ operator ++ " ") hright).placed position).congr
      intro other _
      simp [rename, renderIn, binding_rename, String.append_assoc]
  | unary operator operand =>
      have hoperand := (keeps_renderIn hname .expression operand).parenthesized
        (needsParentheses operand.binding .unary true)
      rw [occurrences_child rfl rfl]
      apply ((hoperand.around operator "").placed position).congr
      intro other _
      simp [rename, renderIn, binding_rename]
  | conditional condition whenTrue whenFalse =>
      have hcondition := (keeps_renderIn hname .expression condition).parenthesized
        (needsParentheses condition.binding .conditional true)
      have htrue := (keeps_renderIn hname .expression whenTrue).parenthesized
        (needsParentheses whenTrue.binding .conditional true)
      have hfalse := (keeps_renderIn hname .expression whenFalse).parenthesized
        (needsParentheses whenFalse.binding .conditional true)
      rw [occurrences_eq rfl]
      simp only [children, occurrencesAll_cons, occurrencesAll_nil, Nat.add_zero]
      apply ((hcondition.joined " ? " (htrue.joined " : " hfalse)).placed position).congr
      intro other _
      simp [rename, renderIn, binding_rename, String.append_assoc]
  | swizzle operand selection =>
      have hoperand := (keeps_renderIn hname .expression operand).parenthesized
        (needsParentheses operand.binding .postfixed false)
      rw [occurrences_child rfl rfl]
      by_cases harity : selection.arity = 0
      · exact .fails .unsetSwizzle fun other _ => by simp [rename, renderIn, harity]
      · by_cases henvironment : operand.isEnvironment environment
        · rw [occurrences_eq_zero hname henvironment]
          apply (Keeps.constant (.ok (NoiseShader.placed position selection.pattern))).congr
          intro other hother
          simp [rename, renderIn, harity, isEnvironment_rename hname hother, henvironment, pure,
            Except.pure]
        · apply ((hoperand.around "" ("." ++ selection.pattern)).placed position).congr
          intro other hother
          simp [rename, renderIn, harity, isEnvironment_rename hname hother, henvironment,
            binding_rename, String.append_assoc]
  | member operand field =>
      have hoperand := (keeps_renderIn hname .expression operand).parenthesized
        (needsParentheses operand.binding .postfixed false)
      rw [occurrences_child rfl rfl]
      by_cases henvironment : operand.isEnvironment environment
      · rw [occurrences_eq_zero hname henvironment]
        apply (Keeps.constant (.ok (NoiseShader.placed position field))).congr
        intro other hother
        simp [rename, renderIn, isEnvironment_rename hname hother, henvironment, pure,
          Except.pure]
      · apply ((hoperand.around "" ("." ++ field)).placed position).congr
        intro other hother
        simp [rename, renderIn, isEnvironment_rename hname hother, henvironment,
          binding_rename, String.append_assoc]
  | index operand selected =>
      have hoperand := (keeps_renderIn hname .expression operand).parenthesized
        (needsParentheses operand.binding .postfixed false)
      have hselected := (keeps_renderIn hname .expression selected).around "[" "]"
      rw [occurrences_pair rfl rfl]
      apply ((hoperand.joined "" hselected).placed position).congr
      intro other _
      simp [rename, renderIn, binding_rename, String.append_assoc]
  | assignment target value =>
      have htarget := (keeps_renderIn hname .expression target).parenthesized
        (position == .expression && needsParentheses target.binding .assignment true)
      have hvalue := keeps_renderIn hname .expression value
      rw [occurrences_pair rfl rfl]
      apply ((htarget.joined " = " hvalue).placed position).congr
      intro other _
      simp [rename, renderIn, binding_rename, String.append_assoc]
  | declaration type declared value =>
      have hvalue := keeps_renderIn hname .expression value
      rw [occurrences_child rfl rfl]
      apply (keeps_optional hvalue position (type ++ " " ++ declared)
        (type ++ " " ++ declared ++ " = ")).congr
      intro other _
      simp only [rename, renderIn, isAbsent_rename]
      split_ifs <;> rfl
  | result value =>
      have hvalue := keeps_renderIn hname .expression value
      rw [occurrences_child rfl rfl]
      apply (keeps_optional hvalue position "return" "return ").congr
      intro other _
      simp only [rename, renderIn, isAbsent_rename]
      split_ifs <;> rfl
  | function function returnType parameters body =>
      have hbody := keeps_renderAll hname (.statement (position.depth + 1)) body
      rw [occurrences_eq rfl, children]
      apply (hbody.lines.around (indentation position.depth ++ returnType ++ " " ++ function ++
        "(" ++ ", ".intercalate (parameters.map parameterText) ++ ") \x7b\n")
        (indentation position.depth ++ "\x7d")).congr
      intro other _
      simp [rename, renderIn_function, String.append_assoc]
  | block label statements =>
      have hstatements := keeps_renderAll hname (.statement position.depth) statements
      rw [occurrences_eq rfl, children]
      apply (hstatements.separated "\n").congr
      intro other _
      rw [rename, renderIn_block]

theorem keeps_renderAll (hname : name ≠ environment) (position : Position) (nodes : List Node) :
    KeepsAll environment (occurrencesAll name nodes) fun other =>
      renderAll environment position (renameAll name other nodes) := by
  cases nodes with
  | nil => exact .nil
  | cons node rest =>
      rw [occurrencesAll_cons]
      exact .cons (keeps_renderIn hname position node) (keeps_renderAll hname position rest)

end

theorem keeps_renderWith (hname : name ≠ environment) (node : Node) :
    Keeps environment (node.occurrences name) fun other =>
      (node.rename name other).renderWith environment := by
  simp only [renderWith, isStatement_rename]
  exact keeps_renderIn hname _ node

end Writing

end Node

end NoiseShader
