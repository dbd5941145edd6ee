import NoiseShader.Proofs.Program.Emission
import Mathlib.Tactic

/-!
# How assignments group

Inside an expression a target that is itself an assignment is put in parentheses;
as a statement it is not.  What the statement says is therefore the chain of
assignments in which the value stands at the end of the chain of the target, and
this is the assignment itself only if the target is none.

The text of a chain inside an expression tells how it is grouped, whatever the
texts of its operands are.
-/

namespace NoiseShader

namespace Node

def isAssignment : Node → Bool
  | assignment _ _ => true
  | _ => false

theorem exists_of_isAssignment {node : Node} (hnode : node.isAssignment = true) :
    ∃ target value, node = assignment target value := by
  cases node with
  | assignment target value => exact ⟨target, value, rfl⟩
  | _ => cases hnode

/-- What is assigned in a chain of assignments, however it is grouped. -/
def operands : Node → List Node
  | assignment target value => target.operands ++ value.operands
  | node => [node]

/-- The chain of assignments with a value at its end. -/
def extended : Node → Node → Node
  | assignment target inner, value => assignment target (inner.extended value)
  | target, value => assignment target value

/-- The text of a target, in parentheses where it is an assignment. -/
def targetText (target : Node) (text : List Char) : List Char :=
  if target.isAssignment then '(' :: text ++ [')'] else text

/-- The text of a chain of assignments inside an expression, over texts of its operands. -/
def chainText (leaf : Node → List Char) : Node → List Char
  | assignment target value =>
    targetText target (chainText leaf target) ++ " = ".toList ++ chainText leaf value
  | node => leaf node

theorem assignment_induction {motive : Node → Prop}
    (single : ∀ node, node.isAssignment = false → motive node)
    (assignment : ∀ target value, motive target → motive value →
      motive (.assignment target value)) (node : Node) : motive node := by
  match node with
  | .assignment target value =>
      exact assignment target value (assignment_induction single assignment target)
        (assignment_induction single assignment value)
  | .absent | .literal _ | .identifier _ | .call _ _ | .binary _ _ _ | .unary _ _
  | .conditional _ _ _ | .swizzle _ _ | .member _ _ | .index _ _ | .declaration _ _ _ | .result _
  | .function _ _ _ _ | .block _ _ | .reference _ => exact single _ rfl

section Single

variable {node : Node} (hsingle : node.isAssignment = false)

include hsingle

theorem operands_of_single : node.operands = [node] := by
  cases node with
  | assignment => cases hsingle
  | _ => simp [operands]

theorem extended_of_single (value : Node) : node.extended value = .assignment node value := by
  cases node with
  | assignment => cases hsingle
  | _ => simp [extended]

theorem chainText_of_single (leaf : Node → List Char) : node.chainText leaf = leaf node := by
  cases node with
  | assignment => cases hsingle
  | _ => simp [chainText]

end Single

theorem operands_extended (chain value : Node) :
    (chain.extended value).operands = chain.operands ++ value.operands := by
  induction chain using assignment_induction with
  | single node hsingle => rw [extended_of_single hsingle, operands]
  | assignment target inner _ ih => rw [extended, operands, ih, operands, List.append_assoc]

theorem chainText_extended (leaf : Node → List Char) (chain value : Node) :
    (chain.extended value).chainText leaf =
      chain.chainText leaf ++ " = ".toList ++ value.chainText leaf := by
  induction chain using assignment_induction with
  | single node hsingle =>
      rw [extended_of_single hsingle, chainText, targetText, hsingle]
      rfl
  | assignment target inner _ ih =>
      rw [extended, chainText, ih, chainText]
      simp only [List.append_assoc]

/-! ## Texts of chains -/

/-- Parentheses in front of a text cannot be matched by what follows the text. -/
theorem head?_of_parentheses {front : ℕ} {text rest other : List Char}
    (htext : List.replicate (front + 1) '(' ++ text ++ rest = text ++ other) :
    other.head? = some '(' := by
  induction text with
  | nil =>
      rw [List.append_nil, List.nil_append] at htext
      rw [← htext]
      rfl
  | cons c text ih =>
      apply ih
      have hc : c = '(' := by
        rw [List.replicate_succ] at htext
        exact (List.cons.inj htext).1.symm
      rw [hc, List.append_cons, ← List.replicate_succ', List.replicate_succ] at htext
      exact (List.cons.inj htext).2

theorem exists_first_operand (leaf : Node → List Char) (node : Node) :
    ∃ first others front rest, node.operands = first :: others ∧
      node.chainText leaf = List.replicate front '(' ++ leaf first ++ rest := by
  induction node using assignment_induction with
  | single node hsingle =>
      exact ⟨node, [], 0, [], operands_of_single hsingle, by simp [chainText_of_single hsingle]⟩
  | assignment target value ih _ =>
      obtain ⟨first, others, front, rest, hoperands, htext⟩ := ih
      rw [operands, chainText, hoperands, htext]
      by_cases htarget : target.isAssignment = true
      · refine ⟨first, others ++ value.operands, front + 1,
          rest ++ [')'] ++ " = ".toList ++ value.chainText leaf, rfl, ?_⟩
        simp [targetText, htarget, List.replicate_succ]
      · refine ⟨first, others ++ value.operands, front,
          rest ++ " = ".toList ++ value.chainText leaf, rfl, ?_⟩
        simp [targetText, htarget]

/-- What can follow a chain of assignments. -/
def Stops (rest : List Char) : Prop := rest.head? ≠ some '(' ∧ rest.head? ≠ some ' '

/-- The text of a chain, in front of a text that cannot belong to it, tells how the chain is
grouped. -/
def Readable (leaf : Node → List Char) (node : Node) : Prop :=
  ∀ ⦃other : Node⦄ ⦃rest rest' : List Char⦄ ⦃more more' : List Node⦄, Stops rest → Stops rest' →
    node.operands ++ more = other.operands ++ more' →
      node.chainText leaf ++ rest = other.chainText leaf ++ rest' → node = other ∧ rest = rest'

section Reading

variable {leaf : Node → List Char} {node other : Node} {rest rest' : List Char}
  {more more' : List Node}

theorem head?_of_opened (hoperands : node :: more = other.operands ++ more')
    (htext : leaf node ++ rest = '(' :: other.chainText leaf ++ rest') :
    rest.head? = some '(' := by
  obtain ⟨first, others, front, tail, hfirst, hopened⟩ := exists_first_operand leaf other
  rw [hfirst] at hoperands
  obtain rfl : node = first := (List.cons.inj hoperands).1
  rw [hopened] at htext
  apply @head?_of_parentheses front (leaf node) (tail ++ rest')
  rw [htext, List.replicate_succ]
  simp only [List.cons_append, List.append_assoc]

theorem readable_target (hnode : node.Readable leaf) (hrest : rest.head? ≠ some '(')
    (hrest' : rest'.head? ≠ some '(') (hoperands : node.operands ++ more = other.operands ++ more')
    (htext : targetText node (node.chainText leaf) ++ rest =
      targetText other (other.chainText leaf) ++ rest') : node = other ∧ rest = rest' := by
  unfold targetText at htext
  cases hsingle : node.isAssignment with
  | false =>
      rw [operands_of_single hsingle] at hoperands
      rw [hsingle, chainText_of_single hsingle] at htext
      cases hsingle' : other.isAssignment with
      | false =>
          rw [operands_of_single hsingle'] at hoperands
          rw [hsingle', chainText_of_single hsingle'] at htext
          obtain rfl : node = other := (List.cons.inj hoperands).1
          exact ⟨rfl, List.append_cancel_left htext⟩
      | true =>
          rw [hsingle'] at htext
          exact absurd (head?_of_opened hoperands (by simpa using htext)) hrest
  | true =>
      rw [hsingle] at htext
      cases hsingle' : other.isAssignment with
      | false =>
          rw [operands_of_single hsingle'] at hoperands
          rw [hsingle', chainText_of_single hsingle'] at htext
          exact absurd (head?_of_opened hoperands.symm (by simpa using htext.symm)) hrest'
      | true =>
          have hclosed : ∀ text : List Char, Stops (')' :: text) := fun text => by simp [Stops]
          have hinner : node.chainText leaf ++ (')' :: rest) =
              other.chainText leaf ++ (')' :: rest') := by
            simpa [hsingle'] using htext
          obtain ⟨hsame, htail⟩ := hnode (hclosed rest) (hclosed rest') hoperands hinner
          exact ⟨hsame, (List.cons.inj htail).2⟩

/-- An operand alone does not read as an assignment. -/
theorem not_stops_of_assignment {target value : Node}
    (hoperands : node :: more = (assignment target value).operands ++ more')
    (htext : leaf node ++ rest = (assignment target value).chainText leaf ++ rest') :
    ¬ Stops rest := by
  rw [operands, List.append_assoc] at hoperands
  rw [chainText, targetText, List.append_assoc, List.append_assoc] at htext
  intro hstops
  cases hsingle : target.isAssignment with
  | false =>
      rw [operands_of_single hsingle] at hoperands
      obtain rfl : node = target := (List.cons.inj hoperands).1
      rw [hsingle, chainText_of_single hsingle] at htext
      apply hstops.2
      rw [List.append_cancel_left htext]
      rfl
  | true =>
      rw [hsingle] at htext
      exact hstops.1 (head?_of_opened hoperands (by simpa using htext))

end Reading

theorem readable (leaf : Node → List Char) (node : Node) : node.Readable leaf := by
  induction node using assignment_induction with
  | single node hsingle =>
      intro other rest rest' more more' hstops hstops' hoperands htext
      rw [operands_of_single hsingle] at hoperands
      rw [chainText_of_single hsingle] at htext
      cases hsingle' : other.isAssignment with
      | false =>
          rw [operands_of_single hsingle'] at hoperands
          rw [chainText_of_single hsingle'] at htext
          obtain rfl : node = other := (List.cons.inj hoperands).1
          exact ⟨rfl, List.append_cancel_left htext⟩
      | true =>
          obtain ⟨target, value, rfl⟩ := exists_of_isAssignment hsingle'
          exact absurd hstops (not_stops_of_assignment hoperands htext)
  | assignment target value ihTarget ihValue =>
      intro other rest rest' more more' hstops hstops' hoperands htext
      cases hsingle : other.isAssignment with
      | false =>
          rw [operands_of_single hsingle] at hoperands
          rw [chainText_of_single hsingle] at htext
          exact absurd hstops' (not_stops_of_assignment hoperands.symm htext.symm)
      | true =>
          obtain ⟨target', value', rfl⟩ := exists_of_isAssignment hsingle
          simp only [operands, chainText, List.append_assoc] at hoperands htext
          obtain ⟨rfl, hrest⟩ := readable_target ihTarget (by simp) (by simp) hoperands htext
          obtain ⟨rfl, hsame⟩ := ihValue hstops hstops' (List.append_cancel_left hoperands)
            (List.append_cancel_left hrest)
          exact ⟨rfl, hsame⟩

theorem eq_of_chainText_eq {leaf : Node → List Char} {node other : Node}
    (hoperands : node.operands = other.operands)
    (htext : node.chainText leaf = other.chainText leaf) : node = other := by
  have hstops : Stops [] := by simp [Stops]
  have hoperands' : node.operands ++ [] = other.operands ++ [] := by rw [hoperands]
  have htext' : node.chainText leaf ++ [] = other.chainText leaf ++ [] := by rw [htext]
  exact (readable leaf node hstops hstops hoperands' htext').1

/-! ## Chains from the checked constructors -/

/-- What the checked constructors say about assignments and about what could bind like one. -/
def Bindable : Node → Prop
  | assignment target value => target.Built ∧ value.Built
  | binary operator _ _ => operatorBinding operator ≠ .assignment
  | _ => True

theorem bindable {node : Node} (hbuilt : node.Built) : node.Bindable := by
  cases hbuilt with
  | literal | bareResult | result | function => trivial
  | identifier hbuilt =>
      rw [Build.eq_identifier hbuilt]
      trivial
  | call _ hbuilt =>
      rw [Build.eq_call hbuilt]
      trivial
  | binary _ _ hbuilt =>
      obtain ⟨rfl, hlevel⟩ := Build.eq_binary hbuilt
      intro hbinding
      rw [hbinding] at hlevel
      have hbounds := Parser.operatorLevel_bounds hlevel
      simp [Binding.rank] at hbounds
  | unary _ hbuilt =>
      rw [(Build.eq_unary hbuilt).1]
      trivial
  | conditional _ _ _ hbuilt =>
      rw [Build.eq_conditional hbuilt]
      trivial
  | swizzle _ hbuilt =>
      obtain ⟨selection, -, rfl⟩ := Build.eq_swizzle hbuilt
      trivial
  | member _ hbuilt =>
      rw [Build.eq_member hbuilt]
      trivial
  | index _ _ hbuilt =>
      rw [Build.eq_index hbuilt]
      trivial
  | assignment htarget hvalue hbuilt =>
      rw [Build.eq_assignment hbuilt]
      exact ⟨htarget, hvalue⟩
  | bareDeclaration hbuilt | declaration _ hbuilt =>
      rw [Build.eq_declaration hbuilt]
      trivial
  | block _ hbuilt =>
      rw [Build.eq_block hbuilt]
      trivial

theorem binding_ne_assignment {node : Node} (hbuilt : node.Built)
    (hsingle : node.isAssignment = false) : node.binding ≠ .assignment := by
  have hbindable := bindable hbuilt
  cases node with
  | assignment => cases hsingle
  | binary => exact hbindable
  | literal value =>
      change (if value.isSigned then Binding.unary else Binding.primary) ≠ .assignment
      split_ifs <;> simp
  | _ => simp [binding]

theorem needsParentheses_target {target : Node} (hbuilt : target.Built) :
    needsParentheses target.binding .assignment true = target.isAssignment := by
  cases hsingle : target.isAssignment with
  | false =>
      have hbinding := binding_ne_assignment hbuilt hsingle
      revert hbinding
      cases target.binding <;> decide
  | true =>
      obtain ⟨inner, value, rfl⟩ := exists_of_isAssignment hsingle
      rfl

/-- The text of a tree inside an expression, if there is one. -/
def expressionText (node : Node) : List Char :=
  match node.renderIn "" .expression with
  | .ok text => text.toList
  | .error _ => []

theorem Built.exists_text {node : Node} (hbuilt : node.Built) (position : Position) :
    ∃ text, node.renderIn "" position = .ok text := by
  obtain ⟨pieces, hpieces, -⟩ := @Built.emits "" node hbuilt position
  exact ⟨written pieces, by rw [renderIn_eq_written, hpieces]; rfl⟩

theorem Built.renderIn_expression {node : Node} (hbuilt : node.Built) :
    node.renderIn "" .expression = .ok (String.ofList (node.chainText expressionText)) := by
  induction node using assignment_induction with
  | single node hsingle =>
      obtain ⟨text, htext⟩ := hbuilt.exists_text .expression
      rw [chainText_of_single hsingle, expressionText, htext]
      simp
  | assignment target value ihTarget ihValue =>
      obtain ⟨htarget, hvalue⟩ := bindable hbuilt
      rw [renderIn, ihTarget htarget, ihValue hvalue]
      change Except.ok _ = Except.ok _
      rw [Except.ok.injEq, ← String.toList_inj, beq_self_eq_true, Bool.true_and,
        needsParentheses_target htarget, chainText]
      cases hsingle : target.isAssignment <;> simp [placed, parenthesized, targetText, hsingle]

theorem Built.assign {target value : Node} (htarget : target.Built) (hvalue : value.Built) :
    (Node.assignment target value).Built := by
  apply Built.assignment htarget hvalue
  unfold Build.assignment
  rw [(@Built.emits "" _ htarget).present, (@Built.emits "" _ hvalue).present]
  rfl

theorem Built.extended {chain value : Node} (hchain : chain.Built) (hvalue : value.Built) :
    (chain.extended value).Built := by
  induction chain using assignment_induction with
  | single node hsingle =>
      rw [extended_of_single hsingle]
      exact hchain.assign hvalue
  | assignment target inner _ ih =>
      obtain ⟨htarget, hinner⟩ := bindable hchain
      exact htarget.assign (ih hinner)

theorem render_assignment {target value : Node} (htarget : target.Built) (hvalue : value.Built) :
    (assignment target value).render =
      .ok (String.ofList ((target.extended value).chainText expressionText) ++ ";") := by
  unfold render renderWith
  rw [isStatement, if_pos rfl, renderIn, htarget.renderIn_expression, hvalue.renderIn_expression]
  change Except.ok _ = Except.ok _
  rw [Except.ok.injEq, ← String.toList_inj, chainText_extended]
  simp [placed, parenthesized, indentation]

end Node

open Node

theorem length_chainText_assignment (leaf : Node → List Char) (target value : Node) :
    ((assignment target value).chainText leaf).length =
      ((target.extended value).chainText leaf).length + if target.isAssignment then 2 else 0 := by
  rw [chainText_extended, chainText, targetText]
  split_ifs
  · simp
    omega
  · simp

theorem chainText_extended_eq_iff (leaf : Node → List Char) (target value : Node) :
    (target.extended value).chainText leaf = (assignment target value).chainText leaf ↔
      target.isAssignment = false := by
  have hlength := length_chainText_assignment leaf target value
  constructor
  · intro hsame
    rw [hsame] at hlength
    cases hsingle : target.isAssignment with
    | false => rfl
    | true =>
        rw [hsingle, if_pos rfl] at hlength
        omega
  · intro hsingle
    rw [extended_of_single hsingle]

theorem ok_statement_inj {text other : List Char} :
    (Except.ok (String.ofList text ++ ";") : Except RenderError String) =
      .ok (String.ofList other ++ ";") ↔ text = other := by
  rw [Except.ok.injEq, ← String.toList_inj]
  simp

/-- A statement that assigns reads as the chain of assignments with the value at the end of the
chain of the target.  So it reads like the same assignment inside an expression exactly if the
target is no assignment, and of assignments with the same operands those read alike as statements
that have the same such chain. -/
theorem assignment_statement_reads_extended {target value : Node} (htarget : target.Built)
    (hvalue : value.Built) :
    ∃ inside chain : String,
      (assignment target value).renderIn "" .expression = .ok inside ∧
      (∀ name, (call name [assignment target value]).render = .ok (name ++ "(" ++ inside ++ ")")) ∧
      (target.extended value).renderIn "" .expression = .ok chain ∧
      (assignment target value).render = .ok (chain ++ ";") ∧
      ((assignment target value).render = .ok (inside ++ ";") ↔ target.isAssignment = false) ∧
      ∀ target' value' : Node, target'.Built → value'.Built →
        (assignment target' value').operands = (assignment target value).operands →
          ((assignment target' value').render = (assignment target value).render ↔
            target'.extended value' = target.extended value) := by
  have hinside := (htarget.assign hvalue).renderIn_expression
  have hstatement := render_assignment htarget hvalue
  refine ⟨_, _, hinside, ?_, (htarget.extended hvalue).renderIn_expression, hstatement, ?_, ?_⟩
  · intro name
    change (call name [assignment target value]).renderIn "" .expression = _
    rw [renderIn, renderAll, hinside]
    rfl
  · rw [hstatement, ok_statement_inj, chainText_extended_eq_iff]
  · intro target' value' htarget' hvalue' hoperands
    rw [render_assignment htarget' hvalue', hstatement, ok_statement_inj]
    constructor
    · intro hsame
      apply eq_of_chainText_eq _ hsame
      rw [operands_extended, operands_extended]
      simpa only [operands] using hoperands
    · intro hsame
      rw [hsame]

theorem built_identifier {name : String} (hname : name ≠ "") : (identifier name).Built := by
  apply @Built.identifier name
  unfold Build.identifier
  rw [if_neg hname]

/-- An assignment to an assignment, and the same operands grouped to the right. -/
theorem assignment_statement_reads_extended_nested :
    (assignment (.identifier "a") (.identifier "b")).Built ∧
      (∃ inside chain : String,
        (assignment (assignment (.identifier "a") (.identifier "b")) (.identifier "c")).renderIn ""
            .expression = .ok inside ∧
          (assignment (assignment (.identifier "a") (.identifier "b")) (.identifier "c")).render =
            .ok (chain ++ ";") ∧ chain ≠ inside) ∧
      (assignment (.identifier "a") (assignment (.identifier "b") (.identifier "c"))).render =
        (assignment (assignment (.identifier "a") (.identifier "b")) (.identifier "c")).render := by
  have ha := built_identifier (show "a" ≠ "" by decide)
  have hb := built_identifier (show "b" ≠ "" by decide)
  have hc := built_identifier (show "c" ≠ "" by decide)
  obtain ⟨inside, chain, hinside, -, -, hstatement, hsame, hothers⟩ :=
    assignment_statement_reads_extended (ha.assign hb) hc
  refine ⟨ha.assign hb, ⟨inside, chain, hinside, hstatement, ?_⟩,
    (hothers _ _ ha (hb.assign hc) rfl).mpr rfl⟩
  rintro rfl
  cases hsame.mp hstatement

/-- As a statement, an assignment to an assignment loses its parentheses. -/
theorem assignment_statement_drops_parentheses :
    (assignment (assignment (.identifier "a") (.identifier "b")) (.identifier "c")).renderIn ""
        .expression = .ok "(a = b) = c" ∧
      (assignment (assignment (.identifier "a") (.identifier "b")) (.identifier "c")).render =
        .ok "a = b = c;" ∧
      (assignment (.identifier "a") (assignment (.identifier "b") (.identifier "c"))).render =
        .ok "a = b = c;" :=
  ⟨rfl, rfl, rfl⟩

end NoiseShader
