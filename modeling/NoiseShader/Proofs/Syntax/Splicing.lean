import NoiseShader.Syntax.Render
import NoiseShader.Proofs.Syntax.Containment
import Mathlib.Tactic

/-!
# Splicing blocks

A block without a name that stands in the body of a function or among the
statements of another block is spliced when its statements take its place in the
list.  `Node.Splices` relates a tree to a tree in which one block, anywhere inside,
has been spliced.

Splicing a block that is not empty leaves the text of the tree as it was.  What a
traversal collects stays the same too, as long as it does not look at blocks without
a name and sees no more of a node than its root.
-/

namespace NoiseShader

/-- The place of a child in a node. -/
inductive Place where
  | inCall (name : String) (front back : List Node)
  | inLeft (operator : String) (right : Node)
  | inRight (operator : String) (left : Node)
  | inUnary (operator : String)
  | inCondition (whenTrue whenFalse : Node)
  | inTrue (condition whenFalse : Node)
  | inFalse (condition whenTrue : Node)
  | inSwizzle (selection : Swizzle)
  | inMember (field : String)
  | inIndexed (position : Node)
  | inPosition (operand : Node)
  | inTarget (value : Node)
  | inValue (target : Node)
  | inDeclaration (type name : String)
  | inResult
  | inBody (name returnType : String) (parameters : List Parameter) (front back : List Node)
  | inBlock (name : String) (front back : List Node)

namespace Place

def fill : Place → Node → Node
  | inCall name front back, child => .call name (front ++ child :: back)
  | inLeft operator right, child => .binary operator child right
  | inRight operator left, child => .binary operator left child
  | inUnary operator, child => .unary operator child
  | inCondition whenTrue whenFalse, child => .conditional child whenTrue whenFalse
  | inTrue condition whenFalse, child => .conditional condition child whenFalse
  | inFalse condition whenTrue, child => .conditional condition whenTrue child
  | inSwizzle selection, child => .swizzle child selection
  | inMember field, child => .member child field
  | inIndexed position, child => .index child position
  | inPosition operand, child => .index operand child
  | inTarget value, child => .assignment child value
  | inValue target, child => .assignment target child
  | inDeclaration type name, child => .declaration type name child
  | inResult, child => .result child
  | inBody name returnType parameters front back, child =>
    .function name returnType parameters (front ++ child :: back)
  | inBlock name front back, child => .block name (front ++ child :: back)

/-- The children in front of the place. -/
def before : Place → List Node
  | inCall _ front _ => front
  | inRight _ left => [left]
  | inTrue condition _ => [condition]
  | inFalse condition whenTrue => [condition, whenTrue]
  | inPosition operand => [operand]
  | inValue target => [target]
  | inBody _ _ _ front _ => front
  | inBlock _ front _ => front
  | _ => []

/-- The children behind the place. -/
def after : Place → List Node
  | inCall _ _ back => back
  | inLeft _ right => [right]
  | inCondition whenTrue whenFalse => [whenTrue, whenFalse]
  | inTrue _ whenFalse => [whenFalse]
  | inIndexed position => [position]
  | inTarget value => [value]
  | inBody _ _ _ _ back => back
  | inBlock _ _ back => back
  | _ => []

theorem children_fill (place : Place) (child : Node) :
    (place.fill child).children = place.before ++ child :: place.after := by
  cases place <;> rfl

end Place

/-- A node that holds a list of statements. -/
inductive Holder where
  | body (name returnType : String) (parameters : List Parameter)
  | block (name : String)

namespace Holder

def fill : Holder → List Node → Node
  | body name returnType parameters, statements =>
    .function name returnType parameters statements
  | block name, statements => .block name statements

theorem children_fill (holder : Holder) (statements : List Node) :
    (holder.fill statements).children = statements := by
  cases holder <;> rfl

end Holder

namespace Node

/-- One block without a name is replaced by its statements in the list where it stands. -/
inductive Splices : Node → Node → Prop
  | opened (holder : Holder) (front : List Node) {statements : List Node} (back : List Node)
      (hsome : statements ≠ []) :
      Splices (holder.fill (front ++ block "" statements :: back))
        (holder.fill (front ++ statements ++ back))
  | inside (place : Place) {old new : Node} (hchild : Splices old new) :
      Splices (place.fill old) (place.fill new)

/-- What the roots of two trees have in common if they differ in nothing but their children. -/
structure SameRoot (old new : Node) : Prop where
  binding : old.binding = new.binding
  isStatement : old.isStatement = new.isStatement
  environmentName? : old.environmentName? = new.environmentName?
  calledName? : old.calledName? = new.calledName?
  functionName? : old.asFunction?.map (·.name) = new.asFunction?.map (·.name)
  present : old.isAbsent = false ∧ new.isAbsent = false
  notReference : old.isReference = false ∧ new.isReference = false
  notIdentifier : ∀ name, old.isEnvironment name = false ∧ new.isEnvironment name = false

theorem Splices.sameRoot {old new : Node} (hsplices : Splices old new) : SameRoot old new := by
  cases hsplices with
  | opened holder => cases holder <;> constructor <;> simp [Holder.fill, binding, isStatement,
      environmentName?, calledName?, asFunction?, isAbsent, isReference, isEnvironment]
  | inside place => cases place <;> constructor <;> simp [Place.fill, binding, isStatement,
      environmentName?, calledName?, asFunction?, isAbsent, isReference, isEnvironment]

/-! ## What a traversal collects -/

theorem preorderAll_append (front back : List Node) :
    preorderAll (front ++ back) = preorderAll front ++ preorderAll back := by
  induction front with
  | nil => rfl
  | cons node rest ih => rw [List.cons_append, preorderAll, ih, preorderAll, List.append_assoc]

/-- Something that is read off the root of a node, and never off a block without a name. -/
structure RootOnly {α : Type} (observe : Node → Option α) : Prop where
  root : ∀ old new, Splices old new → observe old = observe new
  block : ∀ statements, observe (.block "" statements) = none

theorem SameRoot.ne_absent {old new : Node} (hroot : SameRoot old new) :
    old ≠ absent ∧ new ≠ absent := by
  constructor
  · rintro rfl
    exact absurd hroot.present.1 (by simp [isAbsent])
  · rintro rfl
    exact absurd hroot.present.2 (by simp [isAbsent])

theorem Splices.filterMap_preorder {α : Type} {observe : Node → Option α}
    (hobserve : RootOnly observe) {old new : Node} (hsplices : Splices old new) :
    old.preorder.filterMap observe = new.preorder.filterMap observe := by
  have hroot : ∀ {old new : Node}, Splices old new →
      (preorderAll old.children).filterMap observe =
        (preorderAll new.children).filterMap observe →
      old.preorder.filterMap observe = new.preorder.filterMap observe := by
    intro old new hsplices hchildren
    obtain ⟨hold, hnew⟩ := hsplices.sameRoot.ne_absent
    rw [preorder_eq hold, preorder_eq hnew, List.filterMap_cons, List.filterMap_cons,
      hobserve.root old new hsplices, hchildren]
  induction hsplices with
  | opened holder front back hsome =>
      apply hroot (.opened holder front back hsome)
      simp [Holder.children_fill, preorderAll_append, preorderAll, preorder, hobserve.block]
  | inside place hchild ih =>
      apply hroot (.inside place hchild)
      simp [Place.children_fill, preorderAll_append, preorderAll, ih]

/-! ## The text -/

theorem renderAll_eq_mapM (environment : String) (position : Position) (nodes : List Node) :
    renderAll environment position nodes = nodes.mapM (renderIn environment position) := by
  induction nodes with
  | nil => rfl
  | cons node rest ih => rw [renderAll, ih, List.mapM_cons]

theorem renderAll_append (environment : String) (position : Position) (front back : List Node) :
    renderAll environment position (front ++ back) = do
      let frontTexts ← renderAll environment position front
      let backTexts ← renderAll environment position back
      return frontTexts ++ backTexts := by
  rw [renderAll_eq_mapM, renderAll_eq_mapM, renderAll_eq_mapM, List.mapM_append]

theorem length_of_renderAll {environment : String} {position : Position} {nodes : List Node}
    {texts : List String} (htexts : renderAll environment position nodes = .ok texts) :
    texts.length = nodes.length := by
  induction nodes generalizing texts with
  | nil =>
      cases htexts
      rfl
  | cons node rest ih =>
      simp only [renderAll] at htexts
      cases hnode : node.renderIn environment position with
      | error cause => simp [hnode, bind, Except.bind] at htexts
      | ok text =>
          cases hrest : renderAll environment position rest with
          | error cause => simp [hnode, hrest, bind, Except.bind] at htexts
          | ok others =>
              simp only [hnode, hrest, bind, Except.bind, pure, Except.pure,
                Except.ok.injEq] at htexts
              rw [← htexts, List.length_cons, List.length_cons, ih hrest]

theorem ne_nil_of_renderAll {environment : String} {position : Position} {nodes : List Node}
    {texts : List String} (htexts : renderAll environment position nodes = .ok texts)
    (hsome : nodes ≠ []) : texts ≠ [] := by
  have hlength := length_of_renderAll htexts
  have hpos := List.length_pos_of_ne_nil hsome
  rw [← hlength] at hpos
  exact List.ne_nil_of_length_pos hpos

/-- Texts on lines of their own. -/
def lines (texts : List String) : String := String.join (texts.map (· ++ "\n"))

theorem lines_append (front back : List String) :
    lines (front ++ back) = lines front ++ lines back := by
  simp [lines]

theorem lines_eq_intercalate {texts : List String} (hsome : texts ≠ []) :
    lines texts = "\n".intercalate texts ++ "\n" := by
  induction texts with
  | nil => exact absurd rfl hsome
  | cons first rest ih =>
      cases rest with
      | nil => simp [lines]
      | cons second others =>
          have hrest := ih (by simp)
          rw [String.intercalate_cons_cons, String.append_assoc, ← hrest]
          simp [lines, String.append_assoc]

/-- A block that is not empty takes the lines of its statements. -/
theorem lines_renderAll_opened (environment : String) (depth : ℕ) (front : List Node)
    {statements : List Node} (back : List Node) (hsome : statements ≠ []) :
    lines <$> renderAll environment (.statement depth) (front ++ block "" statements :: back) =
      lines <$> renderAll environment (.statement depth) (front ++ statements ++ back) := by
  simp only [renderAll_append, renderAll, renderIn, Position.depth]
  cases renderAll environment (.statement depth) front with
  | error cause => rfl
  | ok frontTexts =>
      cases htexts : renderAll environment (.statement depth) statements with
      | error cause => rfl
      | ok texts =>
          cases renderAll environment (.statement depth) back with
          | error cause => rfl
          | ok backTexts =>
              have hblock : lines ["\n".intercalate texts] = lines texts := by
                rw [lines_eq_intercalate (ne_nil_of_renderAll htexts hsome)]
                simp [lines]
              have hlines : lines (frontTexts ++ "\n".intercalate texts :: backTexts) =
                  lines (frontTexts ++ texts ++ backTexts) := by
                rw [List.append_cons, lines_append, lines_append, lines_append, lines_append,
                  hblock]
              simp only [bind, Except.bind, pure, Except.pure, Functor.map, Except.map, hlines]

theorem intercalate_renderAll_eq {environment : String} {position : Position}
    {nodes others : List Node} (hnodes : nodes ≠ []) (hothers : others ≠ [])
    (hlines : lines <$> renderAll environment position nodes =
      lines <$> renderAll environment position others) :
    "\n".intercalate <$> renderAll environment position nodes =
      "\n".intercalate <$> renderAll environment position others := by
  cases htexts : renderAll environment position nodes with
  | error cause =>
      cases hother : renderAll environment position others with
      | error cause' => simpa [htexts, hother] using hlines
      | ok texts => simp [htexts, hother] at hlines
  | ok texts =>
      cases hother : renderAll environment position others with
      | error cause => simp [htexts, hother] at hlines
      | ok texts' =>
          simp only [htexts, hother, Except.map_ok, Except.ok.injEq] at hlines ⊢
          rw [lines_eq_intercalate (ne_nil_of_renderAll htexts hnodes),
            lines_eq_intercalate (ne_nil_of_renderAll hother hothers)] at hlines
          exact (String.append_left_inj _).mp hlines

theorem renderIn_function (environment : String) (position : Position)
    (name returnType : String) (parameters : List Parameter) (body : List Node) :
    renderIn environment position (function name returnType parameters body) =
      (fun inside => indentation position.depth ++ returnType ++ " " ++ name ++ "(" ++
        ", ".intercalate (parameters.map parameterText) ++ ") \x7b\n" ++ inside ++
        indentation position.depth ++ "\x7d") <$>
          (lines <$> renderAll environment (.statement (position.depth + 1)) body) := by
  rw [renderIn, Functor.map_map]
  rfl

theorem renderIn_block (environment : String) (position : Position) (name : String)
    (statements : List Node) :
    renderIn environment position (block name statements) =
      "\n".intercalate <$> renderAll environment (.statement position.depth) statements := by
  rw [renderIn]
  rfl

theorem Splices.renderIn_eq {old new : Node} (hsplices : Splices old new) (environment : String)
    (position : Position) :
    old.renderIn environment position = new.renderIn environment position := by
  induction hsplices generalizing position with
  | opened holder front back hsome =>
      cases holder with
      | body name returnType parameters =>
          simp only [Holder.fill, renderIn_function]
          rw [lines_renderAll_opened environment _ front back hsome]
      | block name =>
          simp only [Holder.fill, renderIn_block]
          apply intercalate_renderAll_eq
          · simp
          · simp [hsome]
          · exact lines_renderAll_opened environment _ front back hsome
  | @inside place old new hchild ih =>
      have hroot := hchild.sameRoot
      cases place with
      | inCall | inBody | inBlock =>
          simp only [Place.fill, renderIn, renderAll_append, renderAll, ih]
      | inSwizzle | inMember =>
          simp only [Place.fill, renderIn, hroot.notIdentifier, hroot.binding, ih]
      | inDeclaration | inResult =>
          simp only [Place.fill, renderIn, hroot.present, ih]
      | _ => simp only [Place.fill, renderIn, hroot.binding, ih]

theorem Splices.renderWith_eq {old new : Node} (hsplices : Splices old new)
    (environment : String) : old.renderWith environment = new.renderWith environment := by
  rw [renderWith, renderWith, hsplices.sameRoot.isStatement, hsplices.renderIn_eq]

end Node

end NoiseShader
