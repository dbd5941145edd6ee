import NoiseShader.Proofs.Syntax.Construction
import NoiseShader.Proofs.Syntax.Printing
import NoiseShader.Proofs.Vector.Pattern
import Mathlib.Tactic

/-!
# Reading expressions back

The text of an expression is read with the expression grammar, which knows
nothing about how texts are made.  It stands for exactly one tree, the normal
form of the expression: parentheses leave no trace, a number with a sign is the
negation of its absolute value, a number without a notation is the division that
it is written as, and a swizzle is a member.  So the parentheses that operands
get are enough for every operator and every nesting, and two expressions with
one text have one normal form.

A tree that is an assignment is written as a statement when it stands alone;
inside an expression it is an operand like any other.
-/

namespace NoiseShader

open Token (Reads symbol word startsWithWordChar isName)

/-! ## Normal forms -/

/-- How a literal is read back: numbers with a sign as the negation of their absolute value, and
numbers without a notation as the division that they are written as. -/
def Literal.normalized : Literal → Node
  | .float value =>
    match Number.Binary32.parts value with
    | .notANumber => .binary "/" (.literal (.float 0.0)) (.literal (.float 0.0))
    | .infinite false => .binary "/" (.literal (.float 1.0)) (.literal (.float 0.0))
    | .infinite true => .binary "/" (.unary "-" (.literal (.float 1.0))) (.literal (.float 0.0))
    | .finite false _ _ => .literal (.float value)
    | .finite true _ _ => .unary "-" (.literal (.float value.abs))
  | .int value =>
    if value < 0 then .unary "-" (.literal (.int value.natAbs)) else .literal (.int value)
  | value => .literal value

namespace Node

mutual

/-- The tree that the text of an expression is read back as. -/
def normalized : Node → Node
  | literal value => value.normalized
  | call name arguments => call name (normalizedAll arguments)
  | binary operator left right => binary operator left.normalized right.normalized
  | unary operator operand => unary operator operand.normalized
  | conditional condition whenTrue whenFalse =>
    conditional condition.normalized whenTrue.normalized whenFalse.normalized
  | swizzle operand selection => member operand.normalized selection.pattern
  | member operand field => member operand.normalized field
  | index operand position => index operand.normalized position.normalized
  | assignment target value => assignment target.normalized value.normalized
  | node => node

def normalizedAll : List Node → List Node
  | [] => []
  | node :: rest => node.normalized :: normalizedAll rest

end

def isInteger : Node → Bool
  | literal (.int _) => true
  | _ => false

/-- Whether a point can follow the text of an expression without becoming part of a numeral. -/
def pointed : Node → Bool
  | binary _ _ _ => false
  | unary _ _ => false
  | conditional _ _ _ => false
  | assignment _ _ => false
  | node => !node.isInteger

end Node

theorem Prints.integerLiteral (value : ℤ) :
    ∃ tokens, Prints (Node.literal (.int value)).binding.rank (Number.intText value) tokens
      (Literal.int value).normalized false := by
  unfold Number.intText Literal.normalized Node.binding Literal.isSigned
  by_cases hneg : value < 0
  · simp only [hneg, if_true, decide_true]
    exact ⟨_, Prints.unary (by decide) (by decide) (Prints.integer value.natAbs)⟩
  · simp only [hneg, if_false, decide_false, Bool.false_eq_true]
    refine ⟨[.integer value.natAbs], ?_⟩
    have hprints := Prints.integer value.natAbs
    rw [Int.natAbs_of_nonneg (by omega)] at hprints
    exact hprints

/-- A number that is written with one digit on either side of the point. -/
theorem Prints.digit {value : Float32} {c : Char} (hc : c.isDigit = true)
    (hvalue : Number.readDecimal (Nat.ofDigitChars 10 [c, '0'] 0) 1 = value) :
    Prints 15 (String.ofList [c, '.', '0']) [.decimal value] (.literal (.float value))
      true := by
  have hprints := Prints.decimal ⟨[c], ['0'], by simp, by simp, by simpa using hc, by simp⟩
  rw [← hvalue]
  exact hprints

theorem Binding.rank_le (binding : Binding) : binding.rank ≤ 15 := by
  cases binding <;> decide

theorem Prints.finiteLiteral {value : Float32} {negative : Bool} {significand : ℕ} {exponent : ℤ}
    (hparts : Number.Binary32.parts value = .finite negative significand exponent) :
    ∃ tokens, Prints (Node.literal (.float value)).binding.rank (floatText value) tokens
      (Literal.float value).normalized true := by
  obtain ⟨numeral, htext, hvalue⟩ := Number.exists_numeral_floatText hparts
  have hprints := Prints.decimal numeral
  rw [hvalue] at hprints
  have hbinding : (Node.literal (.float value)).binding =
      if negative = true then Binding.unary else Binding.primary := by
    rw [← Number.Binary32.isNegative_of_parts hparts]
    rfl
  rw [hbinding, htext]
  cases negative with
  | true =>
      have hnode : (Literal.float value).normalized = .unary "-" (.literal (.float value.abs)) := by
        simp only [Literal.normalized, hparts]
      rw [hnode]
      exact ⟨_, Prints.unary (by decide) (by decide) hprints⟩
  | false =>
      have hnode : (Literal.float value).normalized = .literal (.float value) := by
        simp only [Literal.normalized, hparts]
      rw [Number.Binary32.abs_eq_self hparts] at hprints
      rw [hnode]
      exact ⟨_, hprints⟩

/-- The text of a number without a notation, in parentheses. -/
theorem Prints.quotientLiteral {value : Float32} {text : String} {tokens : List Token}
    {node : Node} (hprints : Prints 13 text tokens node true)
    (htext : floatText value = "(" ++ (text ++ "/" ++ "0.0") ++ ")")
    (hnode : (Literal.float value).normalized = .binary "/" node (.literal (.float 0.0))) :
    ∃ tokens, Prints (Node.literal (.float value)).binding.rank (floatText value) tokens
      (Literal.float value).normalized true := by
  have hzero : Prints 15 "0.0" [.decimal 0.0] (.literal (.float 0.0)) true :=
    Prints.digit (c := '0') rfl rfl
  rw [htext, hnode]
  exact ⟨_, ((hprints.lower (by decide)).quotient hzero).parentheses.lower
    (Binding.rank_le _)⟩

theorem Prints.floatLiteral (value : Float32) :
    ∃ tokens, Prints (Node.literal (.float value)).binding.rank (floatText value) tokens
      (Literal.float value).normalized true := by
  have hzero : Prints 15 "0.0" [.decimal 0.0] (.literal (.float 0.0)) true :=
    Prints.digit (c := '0') rfl rfl
  have hone : Prints 15 "1.0" [.decimal 1.0] (.literal (.float 1.0)) true :=
    Prints.digit (c := '1') rfl rfl
  have hminus : Prints 13 ("-" ++ "1.0") [symbol "-", .decimal 1.0]
      (.unary "-" (.literal (.float 1.0))) true :=
    Prints.unary (by decide) (by decide) hone
  cases hparts : Number.Binary32.parts value with
  | finite negative significand exponent => exact Prints.finiteLiteral hparts
  | notANumber =>
      apply Prints.quotientLiteral (hzero.lower (by decide))
      · simp only [floatText, hparts]
        rfl
      · simp only [Literal.normalized, hparts]
  | infinite negative =>
      cases negative with
      | false =>
          apply Prints.quotientLiteral (hone.lower (by decide))
          · simp only [floatText, hparts]
            rfl
          · simp only [Literal.normalized, hparts]
      | true =>
          apply Prints.quotientLiteral hminus
          · simp only [floatText, hparts]
            rfl
          · simp only [Literal.normalized, hparts]

/-! ## Expressions -/

/-- A name of the language that is no literal. -/
def IsIdentifier (name : String) : Prop :=
  isName name = true ∧ name ≠ "true" ∧ name ≠ "false"

instance (name : String) : Decidable (IsIdentifier name) := inferInstanceAs (Decidable (_ ∧ _))

def Node.isAssignable : Node → Bool
  | .identifier _ => true
  | .swizzle _ _ => true
  | .member _ _ => true
  | .index _ _ => true
  | _ => false

/-- Trees that the checked constructors make of literals, operators and selections.  Nothing is
selected from an integer, and only what names a place is assigned to. -/
inductive Expression : Node → Prop
  | float (value : Float32) : Expression (.literal (.float value))
  | int (value : ℤ) : Expression (.literal (.int value))
  | uint (value : UInt32) : Expression (.literal (.uint value))
  | bool (value : Bool) : Expression (.literal (.bool value))
  | identifier {name : String} {node : Node} (hname : IsIdentifier name)
      (hbuilt : Build.identifier name = .ok node) : Expression node
  | call {name : String} {arguments : List Node} {node : Node} (hname : IsIdentifier name)
      (harguments : ∀ argument ∈ arguments, Expression argument)
      (hbuilt : Build.call name arguments = .ok node) : Expression node
  | binary {operator : String} {left right node : Node} (hleft : Expression left)
      (hright : Expression right) (hbuilt : Build.binary operator left right = .ok node) :
      Expression node
  | unary {operator : String} {operand node : Node} (hoperand : Expression operand)
      (hbuilt : Build.unary operator operand = .ok node) : Expression node
  | conditional {condition whenTrue whenFalse node : Node} (hcondition : Expression condition)
      (htrue : Expression whenTrue) (hfalse : Expression whenFalse)
      (hbuilt : Build.conditional condition whenTrue whenFalse = .ok node) : Expression node
  | swizzle {operand node : Node} {arity : ℤ} {pattern : String} (hoperand : Expression operand)
      (hinteger : operand.isInteger = false)
      (hbuilt : Build.swizzle operand arity pattern = .ok node) : Expression node
  | member {operand node : Node} {field : String} (hoperand : Expression operand)
      (hinteger : operand.isInteger = false) (hfield : IsIdentifier field)
      (hbuilt : Build.member operand field = .ok node) : Expression node
  | index {operand position node : Node} (hoperand : Expression operand)
      (hposition : Expression position) (hbuilt : Build.index operand position = .ok node) :
      Expression node
  | assignment {target value node : Node} (htarget : Expression target)
      (hplace : target.isAssignable = true) (hvalue : Expression value)
      (hbuilt : Build.assignment target value = .ok node) : Expression node

attribute [local simp] Node.renderIn Node.renderAll Node.normalized Node.normalizedAll

/-- The text of an expression stands for its normal form, at the level of its operator. -/
def Node.Printed (node : Node) : Prop :=
  ∃ text tokens, node.renderIn "" .expression = .ok text ∧
    Prints node.binding.rank text tokens node.normalized node.pointed

theorem Swizzle.isName_pattern {pattern : String} {arity : ℤ} {selection : Swizzle}
    (hbuilt : ofPattern arity pattern = .ok selection) : isName selection.pattern = true := by
  obtain ⟨hne, hlower⟩ := pattern_letters hbuilt
  have hstart : ∀ c ∈ selection.pattern.toList, Token.isWordStart c = true := by
    intro c hc
    unfold Token.isWordStart Char.isAlpha
    simp [hlower c hc]
  obtain ⟨c, tail, htext⟩ := List.exists_cons_of_ne_nil hne
  rw [isName, Bool.and_eq_true, List.all_eq_true]
  refine ⟨?_, fun c hc => Token.isWordChar_of_isWordStart (hstart c hc)⟩
  rw [htext]
  simpa using hstart c (by simp [htext])

structure PrintedArgument where
  text : String
  tokens : List Token
  node : Node
  prints : Prints 0 text tokens node false

namespace PrintedArgument

/-- The texts of arguments with commas between them, in front of a closing parenthesis. -/
theorem reads_all (arguments : List PrintedArgument) (rest : List Char) :
    Reads (", ".toList.intercalate (arguments.map (·.text.toList)))
      ([symbol ","].intercalate (arguments.map tokens)) (')' :: rest) := by
  induction arguments with
  | nil => exact Reads.nil _
  | cons first others ih =>
      have hfirst : ∀ c more, startsWithWordChar (c :: more) = false → c ≠ '.' →
          Reads first.text.toList first.tokens (c :: more) := fun c more hstop hne =>
        first.prints.reads hstop fun h => absurd (Option.some.inj h) hne
      cases others with
      | nil =>
          simp only [List.map_cons, List.map_nil, List.intercalate_singleton]
          exact hfirst _ _ rfl (by decide)
      | cons second others =>
          have hcomma : ∀ more, Reads ",".toList [symbol ","] more :=
            Prints.reads_bracket (by simp)
          have hrest := ih.blank
          simp only [List.map_cons, List.intercalate_cons_cons] at hrest ⊢
          have hall := ((hfirst ',' _ rfl (by decide)).append (hcomma _)).append hrest
          simpa using hall

theorem prints_call {name : String} (hname : IsIdentifier name)
    (arguments : List PrintedArgument) :
    Prints 15 (name ++ "(" ++ ", ".intercalate (arguments.map text) ++ ")")
      (word name :: symbol "(" :: [symbol ","].intercalate (arguments.map tokens) ++ [symbol ")"])
      (.call name (arguments.map node)) true where
  derives := by
    have hcall := Derives.call hname.2.1 hname.2.2 (arguments.map fun a => (a.tokens, a.node)) (by
      simp only [List.mem_map]
      rintro piece ⟨argument, -, rfl⟩
      exact argument.prints.derives)
    simpa only [List.map_map, Function.comp_def] using hcall
  reads {rest} _ _ := by
    have hinside := reads_all arguments rest
    have hopen : ∀ more, Reads "(".toList [symbol "("] more := Prints.reads_bracket (by simp)
    have hclose : ∀ more, Reads ")".toList [symbol ")"] more := Prints.reads_bracket (by simp)
    have hhead : Reads name.toList [word name]
        ("(".toList ++ (", ".toList.intercalate (arguments.map (·.text.toList)) ++ ")".toList) ++
          rest) :=
      Token.reads_word hname.1 rfl
    have htext : (name ++ "(" ++ ", ".intercalate (arguments.map text) ++ ")").toList =
        name.toList ++ ("(".toList ++ (", ".toList.intercalate (arguments.map (·.text.toList)) ++
          ")".toList)) := by
      simp [String.toList_intercalate, Function.comp_def]
    rw [htext]
    exact hhead.append ((hopen _).append (hinside.append (hclose rest)))
  opening _ := by
    obtain ⟨c, tail, htext, hfirst⟩ := Token.exists_cons_of_isName hname.1
    exact ⟨c, by simp [htext], Or.inl (Token.isWordChar_of_isWordStart hfirst)⟩

end PrintedArgument

namespace Node.Printed

theorem operand {node : Node} (hprinted : node.Printed) (parent : Binding) (grouped : Bool)
    (hparent : parent.rank < 15) :
    ∃ text level tokens, node.renderIn "" .expression = .ok text ∧
      Prints level (parenthesized (needsParentheses node.binding parent grouped) text) tokens
        node.normalized (node.pointed || needsParentheses node.binding parent grouped) ∧
      parent.rank ≤ level ∧ (grouped = true → parent.rank < level) := by
  obtain ⟨text, tokens, htext, hprints⟩ := hprinted
  obtain ⟨level, tokens', hprints', hlevel⟩ := hprints.operand parent grouped hparent
  exact ⟨text, level, tokens', htext, hprints', hlevel⟩

theorem binary {operator : String} {left right : Node}
    (hoperator : operatorLevel operator = some (operatorBinding operator).rank)
    (hleft : left.Printed) (hright : right.Printed) :
    (Node.binary operator left right).Printed := by
  have hrank := (Parser.operatorLevel_bounds hoperator).2
  obtain ⟨leftText, leftLevel, front, hleftText, hleftPrints, hleftRank, -⟩ :=
    hleft.operand (operatorBinding operator) false (by omega)
  obtain ⟨rightText, rightLevel, back, hrightText, hrightPrints, -, hrightRank⟩ :=
    hright.operand (operatorBinding operator) true (by omega)
  refine ⟨_, _, ?_, Prints.binary hoperator (hrightRank rfl) (hleftPrints.lower hleftRank)
    hrightPrints⟩
  simp only [renderIn, hleftText, hrightText]
  rfl

theorem unary {operator : String} {operand : Node} (hoperator : operator ∈ prefixOperators)
    (hoperand : operand.Printed) : (Node.unary operator operand).Printed := by
  obtain ⟨text, level, tokens, htext, hprints, -, hrank⟩ :=
    hoperand.operand .unary true (by decide)
  refine ⟨_, _, ?_, (Prints.unary hoperator (hrank rfl) hprints).unpointed⟩
  simp only [renderIn, htext]
  rfl

theorem conditional {condition whenTrue whenFalse : Node} (hcondition : condition.Printed)
    (htrue : whenTrue.Printed) (hfalse : whenFalse.Printed) :
    (Node.conditional condition whenTrue whenFalse).Printed := by
  obtain ⟨text, level, front, htext, hprints, -, hrank⟩ :=
    hcondition.operand .conditional true (by decide)
  obtain ⟨trueText, trueLevel, middle, htrueText, htruePrints, -⟩ :=
    htrue.operand .conditional true (by decide)
  obtain ⟨falseText, falseLevel, back, hfalseText, hfalsePrints, -⟩ :=
    hfalse.operand .conditional true (by decide)
  refine ⟨_, _, ?_, Prints.conditional (hprints.lower (hrank rfl))
    (htruePrints.lower (Nat.zero_le _)) (hfalsePrints.lower (Nat.zero_le _))⟩
  simp only [renderIn, htext, htrueText, hfalseText]
  rfl

/-- What a point is written after: parentheses, or a text that no numeral ends. -/
theorem pointedOperand {node : Node} (hprinted : node.Printed) (hinteger : node.isInteger = false) :
    ∃ text tokens, node.renderIn "" .expression = .ok text ∧
      Prints 14 (parenthesized (needsParentheses node.binding .postfixed false) text) tokens
        node.normalized true := by
  obtain ⟨text, level, tokens, htext, hprints, hrank, -⟩ :=
    hprinted.operand .postfixed false (by decide)
  refine ⟨text, tokens, htext, ?_⟩
  have hpointed : (node.pointed || needsParentheses node.binding .postfixed false) = true := by
    cases node with
    | binary operator left right =>
        have hlow : (operatorBinding operator).rank < Binding.postfixed.rank :=
          lt_of_le_of_lt (operatorBinding_rank_le operator) (by decide)
        simp [needsParentheses, binding, hlow]
    | unary => rfl
    | conditional => rfl
    | assignment => rfl
    | _ => simp [pointed, hinteger]
  rw [hpointed] at hprints
  exact hprints.lower hrank

theorem member {operand : Node} {field : String} (hoperand : operand.Printed)
    (hinteger : operand.isInteger = false) (hfield : isName field = true) :
    (Node.member operand field).Printed := by
  obtain ⟨text, tokens, htext, hprints⟩ := hoperand.pointedOperand hinteger
  refine ⟨_, _, ?_, Prints.member hfield hprints⟩
  simp only [renderIn, isEnvironment_empty, htext]
  rfl

theorem swizzle {operand : Node} {selection : Swizzle} (hoperand : operand.Printed)
    (hinteger : operand.isInteger = false) (hpattern : isName selection.pattern = true)
    (harity : selection.arity ≠ 0) : (Node.swizzle operand selection).Printed := by
  obtain ⟨text, tokens, htext, hprints⟩ := hoperand.pointedOperand hinteger
  refine ⟨_, _, ?_, Prints.member hpattern hprints⟩
  simp only [renderIn, isEnvironment_empty, htext, harity]
  rfl

theorem index {operand position : Node} (hoperand : operand.Printed)
    (hposition : position.Printed) : (Node.index operand position).Printed := by
  obtain ⟨text, level, tokens, htext, hprints, hrank, -⟩ :=
    hoperand.operand .postfixed false (by decide)
  obtain ⟨positionText, inside, hpositionText, hpositionPrints⟩ := hposition
  refine ⟨_, _, ?_, Prints.index (hprints.lower hrank) (hpositionPrints.lower (Nat.zero_le _))⟩
  simp only [renderIn, htext, hpositionText]
  rfl

theorem assignment {target value : Node} (htarget : target.Printed)
    (hplace : target.isAssignable = true) (hvalue : value.Printed) :
    (Node.assignment target value).Printed := by
  have hrank : 14 ≤ target.binding.rank := by
    cases target <;> simp_all [isAssignable, binding, Binding.rank]
  have hneeds : needsParentheses target.binding .assignment true = false := by
    have hzero : Binding.assignment.rank = 0 := rfl
    simp only [needsParentheses, hzero, Bool.true_and, Bool.or_eq_false_iff,
      decide_eq_false_iff_not, beq_eq_false_iff_ne]
    omega
  obtain ⟨text, tokens, htext, hprints⟩ := htarget
  obtain ⟨valueText, back, hvalueText, hvaluePrints⟩ := hvalue
  refine ⟨text ++ " = " ++ valueText, _, ?_, Prints.assignment (hprints.lower (by omega))
    (hvaluePrints.lower (Nat.zero_le _))⟩
  simp only [renderIn, htext, hvalueText, hneeds]
  rfl

theorem renderAll {nodes : List Node} (hprinted : ∀ node ∈ nodes, node.Printed) :
    ∃ arguments : List PrintedArgument,
      Node.renderAll "" .expression nodes = .ok (arguments.map (·.text)) ∧
        normalizedAll nodes = arguments.map (·.node) := by
  induction nodes with
  | nil => exact ⟨[], rfl, rfl⟩
  | cons node rest ih =>
      obtain ⟨arguments, htexts, hnodes⟩ := ih fun node hnode =>
        hprinted node (List.mem_cons_of_mem _ hnode)
      obtain ⟨text, tokens, htext, hprints⟩ := hprinted node List.mem_cons_self
      refine ⟨⟨text, tokens, node.normalized, (hprints.lower (Nat.zero_le _)).unpointed⟩ ::
        arguments, ?_, ?_⟩
      · simp only [Node.renderAll, htext, htexts]
        rfl
      · simp only [normalizedAll, hnodes, List.map_cons]

theorem call {name : String} {arguments : List Node} (hname : IsIdentifier name)
    (harguments : ∀ argument ∈ arguments, argument.Printed) :
    (Node.call name arguments).Printed := by
  obtain ⟨printed, htexts, hnodes⟩ := renderAll harguments
  have hnode : (Node.call name arguments).normalized = .call name (printed.map (·.node)) := by
    simp only [normalized, hnodes]
  have hprints := PrintedArgument.prints_call hname printed
  rw [← hnode] at hprints
  refine ⟨_, _, ?_, hprints⟩
  simp only [renderIn, htexts]
  rfl

end Node.Printed

/-- By induction on how the expression was built. -/
theorem Expression.printed {node : Node} (hexpression : Expression node) : node.Printed := by
  induction hexpression with
  | float value =>
      obtain ⟨tokens, hprints⟩ := Prints.floatLiteral value
      exact ⟨_, tokens, rfl, hprints⟩
  | int value =>
      obtain ⟨tokens, hprints⟩ := Prints.integerLiteral value
      exact ⟨_, tokens, rfl, hprints⟩
  | uint value => exact ⟨_, _, rfl, Prints.unsigned value⟩
  | bool value => exact ⟨_, _, rfl, Prints.bool value⟩
  | identifier hname hbuilt =>
      rw [Build.eq_identifier hbuilt]
      exact ⟨_, _, rfl, Prints.name hname.1 hname.2.1 hname.2.2⟩
  | call hname _ hbuilt ih =>
      rw [Build.eq_call hbuilt]
      exact Node.Printed.call hname ih
  | binary _ _ hbuilt hleft hright =>
      obtain ⟨hnode, hoperator⟩ := Build.eq_binary hbuilt
      rw [hnode]
      exact Node.Printed.binary hoperator hleft hright
  | unary _ hbuilt hoperand =>
      obtain ⟨hnode, hoperator⟩ := Build.eq_unary hbuilt
      rw [hnode]
      exact Node.Printed.unary hoperator hoperand
  | conditional _ _ _ hbuilt hcondition htrue hfalse =>
      rw [Build.eq_conditional hbuilt]
      exact Node.Printed.conditional hcondition htrue hfalse
  | swizzle _ hinteger hbuilt hoperand =>
      obtain ⟨selection, hselection, hnode⟩ := Build.eq_swizzle hbuilt
      rw [hnode]
      exact hoperand.swizzle hinteger (Swizzle.isName_pattern hselection)
        (Swizzle.ofPattern_spec hselection).2.1
  | member _ hinteger hfield hbuilt hoperand =>
      rw [Build.eq_member hbuilt]
      exact hoperand.member hinteger hfield.1
  | index _ _ hbuilt hoperand hposition =>
      rw [Build.eq_index hbuilt]
      exact hoperand.index hposition
  | assignment _ hplace _ hbuilt htarget hvalue =>
      rw [Build.eq_assignment hbuilt]
      exact htarget.assignment hplace hvalue

def Token.tokenize (text : String) : Option (List Token) := Token.scan text.toList

theorem Expression.render_tokens {node : Node} (hexpression : Expression node)
    (hroot : node.isStatement = false) :
    ∃ text tokens, node.render = .ok text ∧ Token.tokenize text = some tokens ∧
      Derives 0 tokens node.normalized := by
  obtain ⟨text, tokens, htext, hprints⟩ := hexpression.printed
  refine ⟨text, tokens, ?_, ?_, (hprints.lower (Nat.zero_le _)).derives⟩
  · unfold Node.render Node.renderWith
    rw [hroot]
    exact htext
  · have hreads : Reads text.toList tokens [] := hprints.reads rfl (by intro h; cases h)
    unfold Reads at hreads
    rw [List.append_nil] at hreads
    rw [Token.tokenize, hreads, Token.scan]
    simp

/-- The text of an expression is one sentence of the expression grammar, and stands for the normal
form of the expression and for no other tree; so expressions with one text have one normal form. -/
theorem expression_round_trip {node : Node} (hexpression : Expression node)
    (hroot : node.isStatement = false) :
    ∃ text tokens, node.render = .ok text ∧ Token.tokenize text = some tokens ∧
      Derives 0 tokens node.normalized ∧
      (∀ other, Derives 0 tokens other → other = node.normalized) ∧
      Parser.parse tokens = some node.normalized ∧
      ∀ other, Expression other → other.isStatement = false → other.render = .ok text →
        other.normalized = node.normalized := by
  obtain ⟨text, tokens, htext, htokens, hderives⟩ := hexpression.render_tokens hroot
  refine ⟨text, tokens, htext, htokens, hderives, fun other hother => hother.unique hderives,
    Parser.parse_of_derives hderives, ?_⟩
  intro other hother hotherRoot hotherText
  obtain ⟨text', tokens', htext', htokens', hderives'⟩ := hother.render_tokens hotherRoot
  rw [hotherText, Except.ok.injEq] at htext'
  subst htext'
  rw [htokens, Option.some.injEq] at htokens'
  subst htokens'
  exact hderives'.unique hderives

/-- Three signs in a row: one is an operator, one negates and one belongs to the number. -/
theorem expression_round_trip_signs :
    Expression (.binary "-" (.identifier "a") (.unary "-" (.literal (.int (-2))))) ∧
      (Node.binary "-" (.identifier "a") (.unary "-" (.literal (.int (-2))))).render =
        .ok "a - -(-2)" ∧
      ∃ tokens, Token.tokenize "a - -(-2)" = some tokens ∧
        Parser.parse tokens = some
          (.binary "-" (.identifier "a") (.unary "-" (.unary "-" (.literal (.int 2))))) := by
  have hname : IsIdentifier "a" := by decide
  have hleft : Expression (.identifier "a") := Expression.identifier hname rfl
  have hright : Expression (.unary "-" (.literal (.int (-2)))) :=
    @Expression.unary "-" _ _ (Expression.int (-2)) rfl
  have hexpression :
      Expression (.binary "-" (.identifier "a") (.unary "-" (.literal (.int (-2))))) :=
    @Expression.binary "-" _ _ _ hleft hright rfl
  obtain ⟨text, tokens, htext, htokens, -, -, hparse, -⟩ := expression_round_trip hexpression rfl
  have hrender : (Node.binary "-" (.identifier "a") (.unary "-" (.literal (.int (-2))))).render =
      .ok "a - -(-2)" := by rfl
  rw [hrender, Except.ok.injEq] at htext
  subst htext
  exact ⟨hexpression, hrender, tokens, htokens, hparse⟩

end NoiseShader
