import NoiseShader.Proofs.Program.Checking
import NoiseShader.Proofs.Syntax.Splicing
import Mathlib.Tactic

/-!
# Blocks without a name in a program

Blocks without a name group statements and do nothing else.  When such a block is
spliced into the list in which it stands, nothing that a program shows is changed:
neither its text and its environment, nor the defects that a check finds, nor the
definitions that are left after pruning.
-/

namespace NoiseShader

/-! ## Checks -/

namespace Validate

variable {setting : Setting} {owner : String} {state : State}

theorem rootOnly_nodeDefect? : Node.RootOnly (nodeDefect? setting owner state) where
  block _ := rfl
  root old new hsplices := by
    cases hsplices with
    | opened holder => cases holder <;> rfl
    | inside place => cases place <;> rfl

end Validate

open Validate in
theorem Node.Splices.afterExpression_eq {old new : Node} (hsplices : Splices old new)
    (setting : Setting) (owner : String) (state : State) :
    afterExpression setting owner state old = afterExpression setting owner state new := by
  rw [afterExpression, afterExpression, hsplices.filterMap_preorder rootOnly_nodeDefect?]

open Validate in
theorem Node.Splices.afterStatement_eq {old new : Node} (hsplices : Splices old new)
    (setting : Setting) (owner : String) (state : State) :
    afterStatement setting owner state old = afterStatement setting owner state new := by
  induction hsplices generalizing owner state with
  | opened holder front back hsome =>
      cases holder <;>
        simp only [Holder.fill, afterStatement, afterStatements_append, afterStatements]
  | @inside place old new hchild ih =>
      cases place with
      | inBody | inBlock =>
          simp only [Place.fill, afterStatement, afterStatements_append, afterStatements, ih]
      | inDeclaration =>
          simp only [Place.fill, afterStatement, hchild.afterExpression_eq]
      | _ => exact (Splices.inside _ hchild).afterExpression_eq setting owner state

/-! ## Calls -/

namespace Node.Splices

variable {old new : Node}

theorem findSome?_preorder {α : Type} {observe : Node → Option α} (hobserve : RootOnly observe)
    (hsplices : Splices old new) :
    old.preorder.findSome? observe = new.preorder.findSome? observe := by
  rw [← List.head?_filterMap, ← List.head?_filterMap, hsplices.filterMap_preorder hobserve]

theorem unknown?_eq (hsplices : Splices old new) : old.unknown? = new.unknown? := by
  rw [unknown?, unknown?, List.find?_eq_findSome?_guard, List.find?_eq_findSome?_guard,
    List.map_findSome?, List.map_findSome?]
  apply hsplices.findSome?_preorder
  constructor
  · intro old new hsplices
    obtain ⟨hold, hnew⟩ := hsplices.sameRoot.notReference
    simp [Option.guard, hold, hnew]
  · intro statements
    rfl

theorem callees_eq (hsplices : Splices old new) : old.callees = new.callees := by
  have hcalled : RootOnly calledName? := ⟨fun _ _ h => h.sameRoot.calledName?, fun _ => rfl⟩
  rw [callees, callees, hsplices.unknown?_eq, hsplices.filterMap_preorder hcalled]

end Node.Splices

/-- All that the search for called definitions reads of a definition. -/
def Definition.callKey (definition : Definition) : String × Except UnknownNode (List String) :=
  (definition.name, definition.toNode.callees)

namespace Reachable

theorem map_name_of_map_callKey {first second : List Definition}
    (hkeys : first.map Definition.callKey = second.map Definition.callKey) :
    first.map Definition.name = second.map Definition.name := by
  have hnames := congrArg (List.map Prod.fst) hkeys
  simpa [Definition.callKey, Function.comp_def] using hnames

theorem any_name_eq {first second : List Definition}
    (hnames : first.map Definition.name = second.map Definition.name) (name : String) :
    first.any (·.name == name) = second.any (·.name == name) := by
  have hany := congrArg (List.any · (· == name)) hnames
  simpa [List.any_map, Function.comp_def] using hany

theorem visible_callKey {first second : List Definition}
    (hkeys : first.map Definition.callKey = second.map Definition.callKey) :
    (visible first).map Definition.callKey = (visible second).map Definition.callKey := by
  induction first generalizing second with
  | nil =>
      rw [List.map_nil, eq_comm, List.map_eq_nil_iff] at hkeys
      rw [hkeys]
  | cons definition rest ih =>
      rw [List.map_cons, eq_comm, List.map_eq_cons_iff] at hkeys
      obtain ⟨other, others, rfl, hkey, hrest⟩ := hkeys
      have hname : other.name = definition.name := congrArg Prod.fst hkey
      rw [visible, visible, hname, any_name_eq (map_name_of_map_callKey hrest)]
      split_ifs
      · exact ih hrest.symm
      · rw [List.map_cons, List.map_cons, hkey, ih hrest.symm]

theorem find?_callKey {first second : List Definition}
    (hkeys : first.map Definition.callKey = second.map Definition.callKey) (name : String) :
    (first.find? (·.name == name)).map Definition.callKey =
      (second.find? (·.name == name)).map Definition.callKey := by
  have hfind := congrArg (List.find? (·.1 == name)) hkeys
  simpa only [List.find?_map, Definition.callKey, Function.comp_def] using hfind

theorem eraseP_callKey {first second : List Definition}
    (hkeys : first.map Definition.callKey = second.map Definition.callKey) (name : String) :
    (first.eraseP (·.name == name)).map Definition.callKey =
      (second.eraseP (·.name == name)).map Definition.callKey := by
  have herase := congrArg (List.eraseP (·.1 == name)) hkeys
  simpa only [List.eraseP_map, Definition.callKey, Function.comp_def] using herase

theorem enlist_callKey {first second : List Definition} {pending others : List Node}
    (hkeys : first.map Definition.callKey = second.map Definition.callKey)
    (hpending : pending.map Node.callees = others.map Node.callees) (names : List String) :
    (enlist first pending names).1.map Definition.callKey =
        (enlist second others names).1.map Definition.callKey ∧
      (enlist first pending names).2.map Node.callees =
        (enlist second others names).2.map Node.callees := by
  induction names generalizing first second pending others with
  | nil => exact ⟨hkeys, hpending⟩
  | cons name rest ih =>
      have hfind := find?_callKey hkeys name
      rw [enlist, enlist]
      cases hfirst : first.find? (·.name == name) with
      | none =>
          rw [hfirst, Option.map_none, eq_comm, Option.map_eq_none_iff] at hfind
          rw [hfind]
          exact ih hkeys hpending
      | some definition =>
          rw [hfirst, Option.map_some, eq_comm, Option.map_eq_some_iff] at hfind
          obtain ⟨other, hsecond, hkey⟩ := hfind
          have hcallees : other.toNode.callees = definition.toNode.callees :=
            congrArg Prod.snd hkey
          rw [hsecond]
          apply ih (eraseP_callKey hkeys name)
          rw [List.map_cons, List.map_cons, hcallees, hpending]

theorem search_callKey {first second : List Definition} {pending others : List Node}
    (hkeys : first.map Definition.callKey = second.map Definition.callKey)
    (hpending : pending.map Node.callees = others.map Node.callees) (rounds : ℕ) :
    List.map Definition.name <$> search rounds first pending =
      List.map Definition.name <$> search rounds second others := by
  induction rounds generalizing first second pending others with
  | zero =>
      have hnames := map_name_of_map_callKey hkeys
      cases pending <;> cases others <;> simp [search, hnames]
  | succ rounds ih =>
      cases pending with
      | nil =>
          rw [List.map_nil, eq_comm, List.map_eq_nil_iff] at hpending
          rw [hpending]
          simp [search, map_name_of_map_callKey hkeys]
      | cons node pending =>
          rw [List.map_cons, eq_comm, List.map_eq_cons_iff] at hpending
          obtain ⟨other, others, rfl, hcallees, hrest⟩ := hpending
          rw [search, search, hcallees]
          cases node.callees with
          | error cause => rfl
          | ok names =>
              obtain ⟨huncalled, hstack⟩ := enlist_callKey hkeys hrest.symm names
              exact ih huncalled hstack

theorem reachable_callKey {first second : List Definition} {roots others : List Node}
    (hkeys : first.map Definition.callKey = second.map Definition.callKey)
    (hroots : roots.map Node.callees = others.map Node.callees) :
    List.map Definition.name <$> reachable first roots =
      List.map Definition.name <$> reachable second others := by
  have hvisible := visible_callKey hkeys
  have hlengths : (visible first).length + roots.length =
      (visible second).length + others.length := by
    have hdefinitions := congrArg List.length hvisible
    have htrees := congrArg List.length hroots
    simp only [List.length_map] at hdefinitions htrees
    rw [hdefinitions, htrees]
  have hreverse : roots.reverse.map Node.callees = others.reverse.map Node.callees := by
    rw [List.map_reverse, List.map_reverse, hroots]
  have hsearch := search_callKey hvisible hreverse ((visible first).length + roots.length)
  have hfilter : ∀ uncalled candidates : List Definition,
      (candidates.filter fun definition => !uncalled.any (·.name == definition.name)).map
          Definition.name =
        (candidates.map Definition.name).filter fun name => !uncalled.any (·.name == name) := by
    intro uncalled candidates
    rw [List.filter_map]
    rfl
  rw [reachable, reachable]
  simp only [← hlengths]
  cases hfirst : search ((visible first).length + roots.length) (visible first) roots.reverse with
  | error cause =>
      cases hsecond : search ((visible first).length + roots.length) (visible second)
          others.reverse with
      | error cause' => simpa [hfirst, hsecond] using hsearch
      | ok uncalled => simp [hfirst, hsecond] at hsearch
  | ok uncalled =>
      cases hsecond : search ((visible first).length + roots.length) (visible second)
          others.reverse with
      | error cause => simp [hfirst, hsecond] at hsearch
      | ok uncalled' =>
          simp only [hfirst, hsecond, Except.map_ok, Except.ok.injEq] at hsearch
          simp only [bind, Except.bind, pure, Except.pure, Except.map_ok, Except.ok.injEq]
          rw [hfilter, hfilter, map_name_of_map_callKey hvisible]
          simp only [any_name_eq hsearch]

end Reachable

/-! ## Programs -/

namespace Program

/-- One block without a name is spliced somewhere in a program. -/
inductive Splices : Program → Program → Prop
  | definition (front : List Definition) {old new : Definition} (back : List Definition)
      (main : Node) (htree : old.toNode.Splices new.toNode) :
      Splices ⟨front ++ old :: back, main⟩ ⟨front ++ new :: back, main⟩
  | main (definitions : List Definition) {old new : Node} (htree : old.Splices new) :
      Splices ⟨definitions, old⟩ ⟨definitions, new⟩

/-- Two programs that show the same. -/
structure Alike (first second : Program) : Prop where
  render : first.render = second.render
  environment : first.environment = second.environment
  environmentMembers : first.environmentMembers = second.environmentMembers
  validate : ∀ globals, first.validate globals = second.validate globals
  prune : (List.map Definition.name ∘ definitions) <$> first.prune =
    (List.map Definition.name ∘ definitions) <$> second.prune

theorem Alike.refl (program : Program) : Alike program program :=
  ⟨rfl, rfl, rfl, fun _ => rfl, rfl⟩

theorem Alike.trans {first second third : Program} (hfirst : Alike first second)
    (hsecond : Alike second third) : Alike first third where
  render := hfirst.render.trans hsecond.render
  environment := hfirst.environment.trans hsecond.environment
  environmentMembers := hfirst.environmentMembers.trans hsecond.environmentMembers
  validate globals := (hfirst.validate globals).trans (hsecond.validate globals)
  prune := hfirst.prune.trans hsecond.prune

namespace Splices

variable {first second : Program}

theorem environment_eq (hsplices : Splices first second) :
    first.environment = second.environment := by
  have hnamed : Node.RootOnly Node.environmentName? :=
    ⟨fun _ _ h => h.sameRoot.environmentName?, fun _ => rfl⟩
  cases hsplices with
  | definition front back main htree => rfl
  | main definitions htree =>
      simp only [environment, htree.findSome?_preorder hnamed]

/-- One tree of the program is spliced and the others stay. -/
theorem trees_eq (hsplices : Splices first second) :
    ∃ front old new back, Node.Splices old new ∧ first.trees = front ++ old :: back ∧
      second.trees = front ++ new :: back := by
  cases hsplices with
  | @definition front old new back main htree =>
      refine ⟨front.map Definition.toNode, old.toNode, new.toNode,
        back.map Definition.toNode ++ [main], htree, ?_, ?_⟩ <;> simp [trees]
  | @main definitions old new htree =>
      exact ⟨definitions.map Definition.toNode, old, new, [], htree, rfl, rfl⟩

theorem rootOnly_environmentMember? (environment : String) :
    Node.RootOnly (environmentMember? environment) where
  block _ := rfl
  root old new hsplices := by
    cases hsplices with
    | opened holder => cases holder <;> rfl
    | @inside place old new hchild =>
        have hidentifier := hchild.sameRoot.notIdentifier environment
        cases place with
        | inSwizzle | inMember => simp [Place.fill, environmentMember?, hidentifier]
        | _ => rfl

theorem environmentMembers_eq (hsplices : Splices first second) :
    first.environmentMembers = second.environmentMembers := by
  obtain ⟨front, old, new, back, htree, hfirst, hsecond⟩ := hsplices.trees_eq
  have hsame := htree.filterMap_preorder (rootOnly_environmentMember? second.environment)
  simp only [environmentMembers, hsplices.environment_eq, hfirst, hsecond,
    Node.preorderAll_append, Node.preorderAll, List.filterMap_append, hsame]

theorem validate_eq (hsplices : Splices first second) (globals : List String) :
    first.validate globals = second.validate globals := by
  obtain ⟨front, old, new, back, htree, hfirst, hsecond⟩ := hsplices.trees_eq
  simp only [validate, hsplices.environment_eq, hfirst, hsecond,
    Validate.afterStatements_append, Validate.afterStatements, htree.afterStatement_eq]

theorem render_eq (hsplices : Splices first second) : first.render = second.render := by
  have henvironment := hsplices.environment_eq
  unfold render
  rw [henvironment]
  cases hsplices with
  | definition front back main htree =>
      simp only [List.mapM_append, List.mapM_cons, htree.renderWith_eq]
  | main definitions htree =>
      simp only [htree.sameRoot.present, htree.renderWith_eq]

theorem prune_eq (hsplices : Splices first second) :
    (List.map Definition.name ∘ definitions) <$> first.prune =
      (List.map Definition.name ∘ definitions) <$> second.prune := by
  have hreachable : List.map Definition.name <$> reachable first.definitions [first.main] =
      List.map Definition.name <$> reachable second.definitions [second.main] := by
    apply Reachable.reachable_callKey
    · cases hsplices with
      | @definition front old new back main htree =>
          have hname : old.name = new.name := Option.some.inj htree.sameRoot.functionName?
          simp [Definition.callKey, hname, htree.callees_eq]
      | main definitions htree => rfl
    · cases hsplices with
      | definition front back main htree => rfl
      | main definitions htree => simp [htree.callees_eq]
  simp only [prune, bind_pure_comp, Functor.map_map]
  exact hreachable

theorem alike (hsplices : Splices first second) : Alike first second where
  render := hsplices.render_eq
  environment := hsplices.environment_eq
  environmentMembers := hsplices.environmentMembers_eq
  validate := hsplices.validate_eq
  prune := hsplices.prune_eq

end Splices

/-- Splicing any number of blocks that have no name and are not empty, one after another and at any
depth, changes nothing that a program shows. -/
theorem alike_of_spliced {first second : Program}
    (hspliced : Relation.ReflTransGen Splices first second) : Alike first second := by
  induction hspliced with
  | refl => exact .refl first
  | tail hfront hlast ih => exact ih.trans hlast.alike

/-- Blocks around statements of a definition, one inside another, and around one of the entry. -/
def grouped : Program where
  definitions := [⟨"fade", "float", [⟨"float", "t"⟩],
    [.block "" [.declaration "float" "s" (.identifier "t"),
      .block "" [.result (.identifier "s")]]]⟩]
  main := .block "Env"
    [.block "" [.assignment (.member (.identifier "Env") "gain")
      (.call "fade" [.member (.identifier "Env") "time"])]]

/-- The same statements without the blocks. -/
def ungrouped : Program where
  definitions := [⟨"fade", "float", [⟨"float", "t"⟩],
    [.declaration "float" "s" (.identifier "t"), .result (.identifier "s")]⟩]
  main := .block "Env" [.assignment (.member (.identifier "Env") "gain")
    (.call "fade" [.member (.identifier "Env") "time"])]

theorem spliced_grouped : Relation.ReflTransGen Splices grouped ungrouped := by
  let declared : Node := .declaration "float" "s" (.identifier "t")
  let returned : Node := .result (.identifier "s")
  let fade (body : List Node) : Definition := ⟨"fade", "float", [⟨"float", "t"⟩], body⟩
  -- The inner block of the definition first, then the outer one, then the block of the entry.
  have hinner : (fade [.block "" [declared, .block "" [returned]]]).toNode.Splices
      (fade [.block "" [declared, returned]]).toNode :=
    .inside (.inBody "fade" "float" [⟨"float", "t"⟩] [] [])
      (.opened (.block "") [declared] [] (List.cons_ne_nil returned []))
  have houter : (fade [.block "" [declared, returned]]).toNode.Splices
      (fade [declared, returned]).toNode :=
    .opened (.body "fade" "float" [⟨"float", "t"⟩]) [] [] (List.cons_ne_nil declared [returned])
  have hmain : grouped.main.Splices ungrouped.main :=
    .opened (.block "Env") [] [] (List.cons_ne_nil _ [])
  have hfirst : Splices grouped ⟨[fade [.block "" [declared, returned]]], grouped.main⟩ :=
    .definition [] [] grouped.main hinner
  have hsecond : Splices ⟨[fade [.block "" [declared, returned]]], grouped.main⟩
      ⟨ungrouped.definitions, grouped.main⟩ :=
    .definition [] [] grouped.main houter
  exact ((Relation.ReflTransGen.single hfirst).tail hsecond).tail (.main _ hmain)

theorem alike_of_spliced_grouped :
    Alike grouped ungrouped ∧
      grouped.render =
        .ok "float fade(float t) \x7b\n\tfloat s = t;\n\treturn s;\n\x7d\ngain = fade(time);" ∧
      grouped.environmentMembers = ["gain", "time"] ∧ grouped.validate [] = [] := by
  have halike := alike_of_spliced spliced_grouped
  refine ⟨halike, ?_, ?_, ?_⟩
  · rw [halike.render]
    decide
  · rw [halike.environmentMembers]
    decide
  · rw [halike.validate]
    decide

end Program

end NoiseShader
