import NoiseShader.Proofs.Number.Narrowing
import NoiseShader.Proofs.Syntax.Containment
import NoiseShader.Proofs.Syntax.RoundTrip

/-!
# Signs that meet

Two signs in a row are read as an increment or a decrement.  Every separator in
the text of a formula keeps the signs around it apart, so two of them can only
meet where an operator is put directly in front of its operand.  There an operand
is enclosed if it counts as one with a sign.  That count sees the sign of every
literal but one: a negative zero in double precision is not below zero, and yet
it is written with a minus.
-/

namespace NoiseShader

open Token (isName)
open Number (natText intText)

/-! ## Doubled characters -/

/-- The character stands twice in a row. -/
def Doubled (c : Char) (text : List Char) : Prop := [c, c] <:+: text

instance (c : Char) (text : List Char) : Decidable (Doubled c text) :=
  inferInstanceAs (Decidable ([c, c] <:+: text))

def IsSign (c : Char) : Prop := c = '+' ∨ c = '-'

instance : DecidablePred IsSign := fun _ => inferInstanceAs (Decidable (_ ∨ _))

section Doubled

variable {c x : Char} {front back text : List Char}

theorem not_doubled_nil : ¬ Doubled c [] := by simp [Doubled]

theorem doubled_cons : Doubled c (x :: text) ↔ x = c ∧ text.head? = some c ∨ Doubled c text := by
  unfold Doubled
  rw [List.infix_cons_iff]
  cases text with
  | nil => simp
  | cons y rest => simp [List.cons_prefix_cons, @eq_comm _ c x, @eq_comm _ c y]

theorem not_doubled_of_notMem (hc : c ∉ text) : ¬ Doubled c text := fun hdoubled =>
  hc (hdoubled.subset (by simp))

theorem IsSign.ne (hc : IsSign c) (hx : ¬ IsSign x) : x ≠ c := fun heq => hx (heq ▸ hc)

theorem IsSign.head?_append (hc : IsSign c) (hx : ¬ IsSign x) :
    (front ++ x :: back).head? = some c ↔ front.head? = some c := by
  cases front <;> simp [hc.ne hx]

/-- Signs meet only inside the texts that another character keeps apart. -/
theorem IsSign.doubled_append (hc : IsSign c) (hx : ¬ IsSign x) :
    Doubled c (front ++ x :: back) ↔ Doubled c front ∨ Doubled c back := by
  induction front with
  | nil => simp [doubled_cons, hc.ne hx, not_doubled_nil]
  | cons first rest ih =>
      rw [List.cons_append, doubled_cons, doubled_cons, ih, hc.head?_append hx, or_assoc]

theorem IsSign.doubled_intercalate (hc : IsSign c) (texts : List (List Char)) :
    Doubled c (", ".toList.intercalate texts) ↔ ∃ text ∈ texts, Doubled c text := by
  induction texts with
  | nil => simp [not_doubled_nil]
  | cons first rest ih =>
      cases rest with
      | nil => simp
      | cons second others =>
          have htext : ", ".toList.intercalate (first :: second :: others) =
              first ++ ',' :: ([] ++ ' ' :: ", ".toList.intercalate (second :: others)) := by
            simp
          rw [htext, hc.doubled_append (by decide), hc.doubled_append (by decide), ih]
          simp [not_doubled_nil]

theorem IsSign.doubled_parenthesized (hc : IsSign c) (inside : Bool) (text : String) :
    Doubled c (parenthesized inside text).toList ↔ Doubled c text.toList := by
  cases inside with
  | false => rfl
  | true =>
      have htext : (parenthesized true text).toList =
          [] ++ '(' :: (text.toList ++ ')' :: []) := by
        simp [parenthesized]
      rw [htext, hc.doubled_append (by decide), hc.doubled_append (by decide)]
      simp [not_doubled_nil]

end Doubled

/-! ## Literals and names -/

/-- A text in which no sign is doubled, and whose own sign is at most a minus. -/
structure SingleSigns (negative : Prop) (text : List Char) : Prop where
  not_doubled : ∀ c, IsSign c → ¬ Doubled c text
  opening : ∀ c, IsSign c → (text.head? = some c ↔ c = '-' ∧ negative)

theorem not_isSign_of_isWordChar {c : Char} (hc : Token.isWordChar c = true) : ¬ IsSign c := by
  rintro (rfl | rfl) <;> revert hc <;> decide

theorem not_isSign_of_isDigit {c : Char} (hc : c.isDigit = true) : ¬ IsSign c :=
  not_isSign_of_isWordChar (Token.isWordChar_of_isDigit hc)

theorem singleSigns_signedText {body : List Char} (hbody : ∀ c ∈ body, ¬ IsSign c)
    (negative : Bool) : SingleSigns (negative = true) (Number.signedText negative body) := by
  have hnotMem : ∀ c, IsSign c → c ∉ body := fun c hc hmem => hbody c hmem hc
  have hhead : ∀ c, IsSign c → body.head? ≠ some c := fun c hc hfirst =>
    hnotMem c hc (List.mem_of_mem_head? hfirst)
  unfold Number.signedText
  cases negative with
  | false =>
      refine ⟨fun c hc => not_doubled_of_notMem (hnotMem c hc), fun c hc => ?_⟩
      simp [hhead c hc]
  | true =>
      refine ⟨fun c hc => ?_, fun c hc => by simp [eq_comm]⟩
      rw [if_pos rfl, doubled_cons]
      rintro (⟨-, hfirst⟩ | hinside)
      · exact hhead c hc hfirst
      · exact not_doubled_of_notMem (hnotMem c hc) hinside

theorem singleSigns_of_plain {text : List Char} (htext : ∀ c ∈ text, ¬ IsSign c) :
    SingleSigns False text := by
  have hsigns := singleSigns_signedText htext false
  rwa [Bool.false_eq_true] at hsigns

theorem singleSigns_name {name : String} (hname : isName name = true) :
    SingleSigns False name.toList := by
  apply singleSigns_of_plain
  intro c hc
  rw [isName, Bool.and_eq_true, List.all_eq_true] at hname
  exact not_isSign_of_isWordChar (hname.2 c hc)

theorem singleSigns_intText (value : ℤ) : SingleSigns (value < 0) (intText value).toList := by
  have hdigits : ∀ c ∈ (natText value.natAbs).toList, ¬ IsSign c := by
    intro c hc
    rw [natText, String.toList_ofList] at hc
    exact not_isSign_of_isDigit (Number.isDigit_toDigits hc)
  have htext : (intText value).toList =
      Number.signedText (decide (value < 0)) (natText value.natAbs).toList := by
    by_cases hneg : value < 0 <;> simp [intText, Number.signedText, hneg]
  have hsigns := singleSigns_signedText hdigits (decide (value < 0))
  rwa [decide_eq_true_eq, ← htext] at hsigns

theorem not_isSign_of_mem_numeral (numeral : Number.PointNumeral) {c : Char}
    (hc : c ∈ numeral.text) : ¬ IsSign c := by
  rw [Number.PointNumeral.text, List.mem_append, List.mem_cons] at hc
  rcases hc with hwhole | rfl | hfraction
  · exact not_isSign_of_isDigit (numeral.whole_digits c hwhole)
  · decide
  · exact not_isSign_of_isDigit (numeral.fraction_digits c hfraction)

/-- What has no notation of its own stands in parentheses, so it does not open with a sign. -/
theorem singleSigns_floatText (x : Float32) :
    SingleSigns (∃ significand exponent,
      Number.Binary32.parts x = .finite true significand exponent) (floatText x).toList := by
  cases hparts : Number.Binary32.parts x with
  | finite negative significand exponent =>
      obtain ⟨numeral, htext, -⟩ := Number.toList_floatText_finite hparts
      rw [htext]
      have hsigns := singleSigns_signedText
        (fun c hc => not_isSign_of_mem_numeral numeral hc) negative
      convert hsigns using 1
      simp
  | notANumber =>
      have htext : floatText x = "(0.0/0.0)" := by simp [floatText, hparts]
      rw [htext]
      constructor
      · rintro c (rfl | rfl) <;> decide
      · rintro c (rfl | rfl) <;> simp
  | infinite negative =>
      have htext : floatText x = if negative then "(-1.0/0.0)" else "(1.0/0.0)" := by
        cases negative <;> simp [floatText, hparts]
      rw [htext]
      cases negative with
      | false | true =>
      constructor
      · rintro c (rfl | rfl) <;> decide
      · rintro c (rfl | rfl) <;> simp

theorem parts_ofDouble_negativeZero {value : Float}
    (hvalue : value.toBits = Number.Binary64.negativeZero) :
    Number.Binary32.parts (Number.Binary32.ofDouble value) = .finite true 0 (-149) := by
  unfold Number.Binary32.ofDouble
  rw [hvalue]
  rfl

theorem floatText_negativeZero {value : Float}
    (hvalue : value.toBits = Number.Binary64.negativeZero) :
    floatText (Number.Binary32.ofDouble value) = "-0.0" := by
  have hdigits : (Number.Format.binary32.shortest 0 (-149)).positional = "0" := rfl
  unfold floatText
  rw [parts_ofDouble_negativeZero hvalue]
  simp [hdigits]

namespace Node

/-- Trees whose text begins with the sign of a negative zero that nothing encloses. -/
inductive Bare : Node → Prop
  | zero {value : Float} (hvalue : value.toBits = Number.Binary64.negativeZero) :
      Bare (literal (.double value))
  | swizzle {operand : Node} {selection : Swizzle} (hoperand : operand.Bare) :
      Bare (swizzle operand selection)
  | member {operand : Node} {field : String} (hoperand : operand.Bare) :
      Bare (member operand field)
  | index {operand position : Node} (hoperand : operand.Bare) : Bare (index operand position)

theorem bare_swizzle_iff {operand : Node} {selection : Swizzle} :
    (swizzle operand selection).Bare ↔ operand.Bare :=
  ⟨fun | .swizzle hoperand => hoperand, .swizzle⟩

theorem bare_member_iff {operand : Node} {field : String} :
    (member operand field).Bare ↔ operand.Bare :=
  ⟨fun | .member hoperand => hoperand, .member⟩

theorem bare_index_iff {operand position : Node} :
    (index operand position).Bare ↔ operand.Bare :=
  ⟨fun | .index hoperand => hoperand, .index⟩

/-- The order does not see the sign of a negative zero, so it counts as a primary. -/
theorem Bare.lt_rank {node : Node} (hbare : node.Bare) : 13 < node.binding.rank := by
  cases hbare with
  | @zero value hvalue =>
      have hless : ¬ value < 0 := fun hneg => ((Number.Binary64.lt_zero_iff value).mp hneg).2 hvalue
      simp [binding, Literal.isSigned, hless, Binding.rank]
  | swizzle | member | index => exact Nat.lt_succ_self 13

theorem Bare.contains_zero {node : Node} (hbare : node.Bare) :
    ∃ value : Float, node.Contains (literal (.double value)) ∧
      value.toBits = Number.Binary64.negativeZero := by
  induction hbare with
  | zero hvalue => exact ⟨_, .self _, hvalue⟩
  | swizzle _ ih | member _ ih | index _ ih =>
      obtain ⟨value, hcontains, hvalue⟩ := ih
      exact ⟨value, .inside (by simp [children]) hcontains, hvalue⟩

/-- Somewhere in the tree a sign is put in front of a text that begins with the same one. -/
def Clashes (c : Char) (node : Node) : Prop :=
  c = '-' ∧ ∃ operand, node.Contains (unary "-" operand) ∧ operand.Bare

theorem clashes_iff_children {c : Char} (node : Node)
    (hnode : ∀ operand, node ≠ unary "-" operand) :
    node.Clashes c ↔ ∃ child ∈ node.children, child.Clashes c := by
  unfold Clashes
  constructor
  · rintro ⟨hc, operand, hcontains, hbare⟩
    obtain ⟨child, hchild, hinside⟩ := (contains_iff_children (hnode operand)).mp hcontains
    exact ⟨child, hchild, hc, operand, hinside, hbare⟩
  · rintro ⟨child, hchild, hc, operand, hinside, hbare⟩
    exact ⟨hc, operand, .inside hchild hinside, hbare⟩

theorem clashes_minus {c : Char} {operand : Node} :
    (unary "-" operand).Clashes c ↔ c = '-' ∧ operand.Bare ∨ operand.Clashes c := by
  constructor
  · rintro ⟨hc, inner, hcontains, hbare⟩
    cases hcontains with
    | self => exact .inl ⟨hc, hbare⟩
    | inside hchild hinside =>
        rw [children, List.mem_singleton] at hchild
        exact .inr ⟨hc, inner, hchild ▸ hinside, hbare⟩
  · rintro (⟨hc, hbare⟩ | ⟨hc, inner, hinside, hbare⟩)
    · exact ⟨hc, operand, .self _, hbare⟩
    · exact ⟨hc, inner, .inside (by simp [children]) hinside, hbare⟩

/-- The signs in the text of a tree: they meet where the tree says, and a text that is put
unenclosed behind an operator opens with a sign only if the tree is bare. -/
structure Signs (node : Node) (text : String) : Prop where
  doubled : ∀ c, IsSign c → (Doubled c text.toList ↔ node.Clashes c)
  opening : 13 < node.binding.rank →
    ∀ c, IsSign c → (text.toList.head? = some c ↔ c = '-' ∧ node.Bare)

theorem needsParentheses_unary (operand : Binding) :
    needsParentheses operand .unary true = decide (operand.rank ≤ 13) := by
  cases operand <;> rfl

theorem needsParentheses_postfixed (operand : Binding) :
    needsParentheses operand .postfixed false = decide (operand.rank ≤ 13) := by
  cases operand <;> rfl

namespace Signs

variable {node operand : Node} {text : String}

/-- The text of an operand that is enclosed unless it binds more tightly than any operator. -/
theorem head?_enclosed (hsigns : operand.Signs text) {inside : Bool}
    (hinside : inside = decide (operand.binding.rank ≤ 13)) {c : Char} (hc : IsSign c) :
    (parenthesized inside text).toList.head? = some c ↔ c = '-' ∧ operand.Bare := by
  by_cases hrank : 13 < operand.binding.rank
  · rw [hinside, decide_eq_false (by omega)]
    exact hsigns.opening hrank c hc
  · have hbare : ¬ operand.Bare := fun hbare => hrank hbare.lt_rank
    have hparenthesis : '(' ≠ c := hc.ne (by decide)
    rw [hinside, decide_eq_true (by omega)]
    simp [parenthesized, hparenthesis, hbare]

theorem of_singleSigns {negative : Prop} (hchildren : node.children = [])
    (hsigns : SingleSigns negative text.toList)
    (hbare : 13 < node.binding.rank → (negative ↔ node.Bare)) : node.Signs text where
  doubled c hc := by
    have hnode : ∀ operand, node ≠ unary "-" operand := by
      rintro operand rfl
      cases hchildren
    rw [clashes_iff_children node hnode, hchildren]
    simp [hsigns.not_doubled c hc]
  opening hrank c hc := by rw [hsigns.opening c hc, hbare hrank]

theorem binary {operator : String} {left right : Node} {leftText rightText : String}
    (hoperator : ∀ c, IsSign c → ¬ Doubled c operator.toList) (hleft : left.Signs leftText)
    (hright : right.Signs rightText) :
    (Node.binary operator left right).Signs
      (parenthesized (needsParentheses left.binding (operatorBinding operator) false) leftText ++
        " " ++ operator ++ " " ++
        parenthesized (needsParentheses right.binding (operatorBinding operator) true)
          rightText) where
  doubled c hc := by
    have htext (first second : String) : (first ++ " " ++ operator ++ " " ++ second).toList =
        first.toList ++ ' ' :: (operator.toList ++ ' ' :: second.toList) := by simp
    rw [htext, hc.doubled_append (by decide), hc.doubled_append (by decide),
      hc.doubled_parenthesized, hc.doubled_parenthesized, hleft.doubled c hc, hright.doubled c hc,
      clashes_iff_children (.binary operator left right) (by simp)]
    simp [children, hoperator c hc]
  opening hrank := by
    have hlow := operatorBinding_rank_le operator
    exact absurd hrank (by simp only [binding]; omega)

theorem unary {operator : String} (hoperator : operator ∈ unaryOperators)
    (hsigns : operand.Signs text) :
    (Node.unary operator operand).Signs
      (operator ++ parenthesized (needsParentheses operand.binding .unary true) text) where
  doubled c hc := by
    rw [needsParentheses_unary]
    generalize hinside : decide (operand.binding.rank ≤ 13) = inside
    have hhead := hsigns.head?_enclosed hinside.symm hc
    have hbelow := (hc.doubled_parenthesized inside text).trans (hsigns.doubled c hc)
    simp only [unaryOperators, List.mem_cons, List.not_mem_nil, or_false] at hoperator
    rcases hoperator with rfl | hothers
    · have htext : ("-" ++ parenthesized inside text).toList =
          '-' :: (parenthesized inside text).toList := by simp
      rw [htext, doubled_cons, hhead, hbelow, clashes_minus]
      simp [eq_comm]
    · -- No other operator is written with the sign that its operand can open with.
      obtain ⟨symbol, hsymbol, hne⟩ : ∃ symbol, operator.toList = [symbol] ∧ symbol ≠ '-' := by
        rcases hothers with rfl | rfl | rfl <;> exact ⟨_, rfl, by decide⟩
      have hminus : operator ≠ "-" := by
        rintro rfl
        exact hne (by simpa using hsymbol.symm)
      have hapart : ¬ (symbol = c ∧ c = '-' ∧ operand.Bare) := by
        rintro ⟨rfl, hequal, -⟩
        exact hne hequal
      rw [String.toList_append, hsymbol, List.singleton_append, doubled_cons, hhead, hbelow,
        clashes_iff_children (.unary operator operand) (by simp [hminus])]
      simp [hapart, children]
  opening hrank := absurd hrank (lt_irrefl 13)

theorem conditional {condition whenTrue whenFalse : Node} {trueText falseText : String}
    (hcondition : condition.Signs text) (htrue : whenTrue.Signs trueText)
    (hfalse : whenFalse.Signs falseText) :
    (Node.conditional condition whenTrue whenFalse).Signs
      (parenthesized (needsParentheses condition.binding .conditional true) text ++ " ? " ++
        parenthesized (needsParentheses whenTrue.binding .conditional true) trueText ++ " : " ++
        parenthesized (needsParentheses whenFalse.binding .conditional true) falseText) where
  doubled c hc := by
    have htext (first second third : String) :
        (first ++ " ? " ++ second ++ " : " ++ third).toList =
          first.toList ++ ' ' :: ([] ++ '?' :: ([] ++ ' ' :: (second.toList ++ ' ' ::
            ([] ++ ':' :: ([] ++ ' ' :: third.toList))))) := by simp
    rw [htext]
    simp only [hc.doubled_append (show ¬ IsSign ' ' by decide),
      hc.doubled_append (show ¬ IsSign '?' by decide),
      hc.doubled_append (show ¬ IsSign ':' by decide), hc.doubled_parenthesized,
      hcondition.doubled c hc, htrue.doubled c hc, hfalse.doubled c hc, not_doubled_nil, false_or]
    rw [clashes_iff_children (.conditional condition whenTrue whenFalse) (by simp)]
    simp [children]
  opening hrank := absurd hrank (by simp [binding, Binding.rank])

/-- A tree that is selected from an operand by a name opens and clashes as the operand does. -/
theorem selected {name : String} (hname : isName name = true) (hsigns : operand.Signs text)
    (hclashes : ∀ c, node.Clashes c ↔ operand.Clashes c) (hbare : node.Bare ↔ operand.Bare) :
    node.Signs (parenthesized (needsParentheses operand.binding .postfixed false) text ++ "." ++
      name) := by
  have htext (first : String) : (first ++ "." ++ name).toList =
      first.toList ++ '.' :: name.toList := by simp
  constructor
  · intro c hc
    have hnone := (singleSigns_name hname).not_doubled c hc
    rw [htext, hc.doubled_append (by decide), hc.doubled_parenthesized, hsigns.doubled c hc,
      hclashes c]
    simp [hnone]
  · intro _ c hc
    rw [htext, hc.head?_append (by decide), hbare]
    exact hsigns.head?_enclosed (needsParentheses_postfixed _) hc

theorem index {position : Node} {inside : String} (hsigns : operand.Signs text)
    (hposition : position.Signs inside) :
    (Node.index operand position).Signs
      (parenthesized (needsParentheses operand.binding .postfixed false) text ++ "[" ++ inside ++
        "]") := by
  have htext (first : String) : (first ++ "[" ++ inside ++ "]").toList =
      first.toList ++ '[' :: (inside.toList ++ ']' :: []) := by simp
  constructor
  · intro c hc
    rw [htext, hc.doubled_append (by decide), hc.doubled_append (by decide),
      hc.doubled_parenthesized, hsigns.doubled c hc, hposition.doubled c hc,
      clashes_iff_children (.index operand position) (by simp)]
    simp [children, not_doubled_nil]
  · intro _ c hc
    rw [htext, hc.head?_append (by decide), bare_index_iff]
    exact hsigns.head?_enclosed (needsParentheses_postfixed _) hc

theorem call {name : String} (hname : isName name = true) {arguments : List Node}
    {texts : List String} (harguments : List.Forall₂ Signs arguments texts) :
    (Node.call name arguments).Signs (name ++ "(" ++ ", ".intercalate texts ++ ")") := by
  have htext : (name ++ "(" ++ ", ".intercalate texts ++ ")").toList =
      name.toList ++ '(' ::
        (", ".toList.intercalate (texts.map String.toList) ++ ')' :: []) := by
    simp [String.toList_intercalate]
  have hsingle := singleSigns_name hname
  constructor
  · intro c hc
    have hinside : (∃ text ∈ texts.map String.toList, Doubled c text) ↔
        ∃ argument ∈ arguments, argument.Clashes c := by
      clear htext
      induction harguments with
      | nil => simp
      | cons hfirst _ ih =>
        simp only [List.map_cons, List.exists_mem_cons_iff, hfirst.doubled c hc, ih]
    rw [htext, hc.doubled_append (by decide), hc.doubled_append (by decide),
      hc.doubled_intercalate, hinside, clashes_iff_children (.call name arguments) (by simp)]
    simp [children, hsingle.not_doubled c hc, not_doubled_nil]
  · intro _ c hc
    have hbare : ¬ (Node.call name arguments).Bare := by rintro ⟨⟩
    rw [htext, hc.head?_append (by decide), hsingle.opening c hc]
    simp [hbare]

end Signs

end Node

/-! ## Formulas -/

/-- Trees that the checked constructors make of literals of every type with a notation, names,
operators and selections. -/
inductive Formula : Node → Prop
  | float (value : Float32) : Formula (.literal (.float value))
  | double (value : Float) : Formula (.literal (.double value))
  | int (value : ℤ) : Formula (.literal (.int value))
  | uint (value : UInt32) : Formula (.literal (.uint value))
  | bool (value : Bool) : Formula (.literal (.bool value))
  | identifier {name : String} {node : Node} (hname : isName name = true)
      (hbuilt : Build.identifier name = .ok node) : Formula node
  | call {name : String} {arguments : List Node} {node : Node} (hname : isName name = true)
      (harguments : ∀ argument ∈ arguments, Formula argument)
      (hbuilt : Build.call name arguments = .ok node) : Formula node
  | binary {operator : String} {left right node : Node} (hleft : Formula left)
      (hright : Formula right) (hbuilt : Build.binary operator left right = .ok node) :
      Formula node
  | unary {operator : String} {operand node : Node} (hoperand : Formula operand)
      (hbuilt : Build.unary operator operand = .ok node) : Formula node
  | conditional {condition whenTrue whenFalse node : Node} (hcondition : Formula condition)
      (htrue : Formula whenTrue) (hfalse : Formula whenFalse)
      (hbuilt : Build.conditional condition whenTrue whenFalse = .ok node) : Formula node
  | swizzle {operand node : Node} {arity : ℤ} {pattern : String} (hoperand : Formula operand)
      (hbuilt : Build.swizzle operand arity pattern = .ok node) : Formula node
  | member {operand node : Node} {field : String} (hoperand : Formula operand)
      (hfield : isName field = true) (hbuilt : Build.member operand field = .ok node) :
      Formula node
  | index {operand position node : Node} (hoperand : Formula operand)
      (hposition : Formula position) (hbuilt : Build.index operand position = .ok node) :
      Formula node

theorem not_doubled_operator {operator : String} {level : ℕ}
    (hoperator : operatorLevel operator = some level) {c : Char} (hc : IsSign c) :
    ¬ Doubled c operator.toList := by
  have hall : ∀ group ∈ operatorGroups, ∀ operator ∈ group,
      ¬ Doubled '+' operator.toList ∧ ¬ Doubled '-' operator.toList := by decide
  obtain ⟨group, hgroup, hmem⟩ := Parser.exists_group_of_operatorLevel hoperator
  rcases hc with rfl | rfl
  · exact (hall group hgroup operator hmem).1
  · exact (hall group hgroup operator hmem).2

namespace Node

/-- The tree has a text, with these signs in it. -/
def Signed (node : Node) : Prop :=
  ∃ text, node.renderIn "" .expression = .ok text ∧ node.Signs text

theorem Signed.float (value : Float32) : (literal (.float value)).Signed := by
  refine ⟨floatText value, rfl, .of_singleSigns rfl (singleSigns_floatText value) ?_⟩
  intro hrank
  have hbare : ¬ (literal (.float value)).Bare := by rintro ⟨⟩
  simp only [hbare, iff_false, not_exists]
  intro significand exponent hparts
  have hnegative : Number.Binary32.isNegative value = true :=
    Number.Binary32.isNegative_of_parts hparts
  simp [binding, Literal.isSigned, hnegative, Binding.rank] at hrank

theorem Signed.double (value : Float) : (literal (.double value)).Signed := by
  refine ⟨floatText (Number.Binary32.ofDouble value), rfl,
    .of_singleSigns rfl (singleSigns_floatText _) ?_⟩
  intro hrank
  have hless : ¬ value < 0 := by
    intro hneg
    simp [binding, Literal.isSigned, hneg, Binding.rank] at hrank
  rw [Number.Binary64.lt_zero_iff, not_and, not_not] at hless
  constructor
  · rintro ⟨significand, exponent, hparts⟩
    have hsign := Number.Binary64.sign?_ofDouble value
    rw [hparts] at hsign
    exact .zero (hless hsign.symm)
  · rintro ⟨hvalue⟩
    exact ⟨0, -149, parts_ofDouble_negativeZero hvalue⟩

theorem Signed.int (value : ℤ) : (literal (.int value)).Signed := by
  refine ⟨intText value, rfl, .of_singleSigns rfl (singleSigns_intText value) ?_⟩
  intro hrank
  have hbare : ¬ (literal (.int value)).Bare := by rintro ⟨⟩
  simp only [hbare, iff_false]
  intro hneg
  simp [binding, Literal.isSigned, hneg, Binding.rank] at hrank

/-- A leaf that is written without signs. -/
theorem Signed.of_plain {node : Node} {text : String}
    (hrender : node.renderIn "" .expression = .ok text) (hchildren : node.children = [])
    (hbare : ¬ node.Bare) (htext : SingleSigns False text.toList) : node.Signed :=
  ⟨text, hrender, .of_singleSigns hchildren htext fun _ => by simp [hbare]⟩

theorem Signed.uint (value : UInt32) : (literal (.uint value)).Signed := by
  refine .of_plain rfl rfl (by rintro ⟨⟩) (singleSigns_of_plain fun c hc => ?_)
  change c ∈ (natText value.toNat ++ "u").toList at hc
  rw [String.toList_append, List.mem_append, natText, String.toList_ofList] at hc
  rcases hc with hdigit | hsuffix
  · exact not_isSign_of_isDigit (Number.isDigit_toDigits hdigit)
  · rw [List.mem_singleton.mp hsuffix]
    decide

theorem Signed.bool (value : Bool) : (literal (.bool value)).Signed := by
  refine .of_plain rfl rfl (by rintro ⟨⟩) (singleSigns_name ?_)
  cases value <;> decide

theorem Signed.renderAll {arguments : List Node}
    (hsigned : ∀ argument ∈ arguments, argument.Signed) :
    ∃ texts, Node.renderAll "" .expression arguments = .ok texts ∧
      List.Forall₂ Signs arguments texts := by
  induction arguments with
  | nil => exact ⟨[], rfl, .nil⟩
  | cons first rest ih =>
      obtain ⟨text, htext, hfirst⟩ := hsigned first (by simp)
      obtain ⟨texts, htexts, hrest⟩ := ih fun argument hmem => hsigned argument (by simp [hmem])
      refine ⟨text :: texts, ?_, .cons hfirst hrest⟩
      simp only [Node.renderAll, htext, htexts]
      rfl

end Node

theorem Formula.signed {node : Node} (hformula : Formula node) : node.Signed := by
  induction hformula with
  | float value => exact .float value
  | double value => exact .double value
  | int value => exact .int value
  | uint value => exact .uint value
  | bool value => exact .bool value
  | identifier hname hbuilt =>
      rw [Build.eq_identifier hbuilt]
      exact .of_plain rfl rfl (by rintro ⟨⟩) (singleSigns_name hname)
  | call hname _ hbuilt ih =>
      obtain ⟨texts, htexts, hsigns⟩ := Node.Signed.renderAll ih
      rw [Build.eq_call hbuilt]
      refine ⟨_, ?_, .call hname hsigns⟩
      simp only [Node.renderIn, htexts]
      rfl
  | binary _ _ hbuilt hleft hright =>
      obtain ⟨rfl, hoperator⟩ := Build.eq_binary hbuilt
      obtain ⟨leftText, hleftText, hleftSigns⟩ := hleft
      obtain ⟨rightText, hrightText, hrightSigns⟩ := hright
      refine ⟨_, ?_, .binary (fun c => not_doubled_operator hoperator) hleftSigns hrightSigns⟩
      simp only [Node.renderIn, hleftText, hrightText]
      rfl
  | unary _ hbuilt ih =>
      obtain ⟨rfl, hoperator⟩ := Build.eq_unary hbuilt
      obtain ⟨text, htext, hsigns⟩ := ih
      refine ⟨_, ?_, .unary hoperator hsigns⟩
      simp only [Node.renderIn, htext]
      rfl
  | conditional _ _ _ hbuilt hcondition htrue hfalse =>
      rw [Build.eq_conditional hbuilt]
      obtain ⟨text, htext, hsigns⟩ := hcondition
      obtain ⟨trueText, htrueText, htrueSigns⟩ := htrue
      obtain ⟨falseText, hfalseText, hfalseSigns⟩ := hfalse
      refine ⟨_, ?_, .conditional hsigns htrueSigns hfalseSigns⟩
      simp only [Node.renderIn, htext, htrueText, hfalseText]
      rfl
  | swizzle _ hbuilt ih =>
      obtain ⟨selection, hselection, rfl⟩ := Build.eq_swizzle hbuilt
      obtain ⟨text, htext, hsigns⟩ := ih
      refine ⟨_, ?_, .selected (Swizzle.isName_pattern hselection) hsigns ?_ Node.bare_swizzle_iff⟩
      · simp only [Node.renderIn, Node.isEnvironment_empty, htext,
          (Swizzle.ofPattern_spec hselection).2.1]
        rfl
      · intro c
        rw [Node.clashes_iff_children (.swizzle _ _) (by simp)]
        simp [Node.children]
  | member _ hfield hbuilt ih =>
      rw [Build.eq_member hbuilt]
      obtain ⟨text, htext, hsigns⟩ := ih
      refine ⟨_, ?_, .selected hfield hsigns ?_ Node.bare_member_iff⟩
      · simp only [Node.renderIn, Node.isEnvironment_empty, htext]
        rfl
      · intro c
        rw [Node.clashes_iff_children (.member _ _) (by simp)]
        simp [Node.children]
  | index _ _ hbuilt hoperand hposition =>
      rw [Build.eq_index hbuilt]
      obtain ⟨text, htext, hsigns⟩ := hoperand
      obtain ⟨inside, hinside, hinsideSigns⟩ := hposition
      refine ⟨_, ?_, .index hsigns hinsideSigns⟩
      simp only [Node.renderIn, htext, hinside]
      rfl

theorem Formula.render_eq {node : Node} (hformula : Formula node) :
    node.render = node.renderIn "" .expression := by
  have hexpression : node.isStatement = false := by
    cases hformula with
    | float | double | int | uint | bool => rfl
    | identifier _ hbuilt => rw [Build.eq_identifier hbuilt]; rfl
    | call _ _ hbuilt => rw [Build.eq_call hbuilt]; rfl
    | binary _ _ hbuilt => rw [(Build.eq_binary hbuilt).1]; rfl
    | unary _ hbuilt => rw [(Build.eq_unary hbuilt).1]; rfl
    | conditional _ _ _ hbuilt => rw [Build.eq_conditional hbuilt]; rfl
    | swizzle _ hbuilt =>
        obtain ⟨selection, -, rfl⟩ := Build.eq_swizzle hbuilt
        rfl
    | member _ _ hbuilt => rw [Build.eq_member hbuilt]; rfl
    | index _ _ hbuilt => rw [Build.eq_index hbuilt]; rfl
  rw [Node.render, Node.renderWith, hexpression]
  rfl

/-- The text of a formula has no increment in it, and a decrement exactly where a minus is put in
front of the unenclosed sign of a negative zero in double precision. -/
theorem formula_decrements_iff {node : Node} (hformula : Formula node) :
    ∃ text, node.render = .ok text ∧ ¬ Doubled '+' text.toList ∧
      (Doubled '-' text.toList ↔
        ∃ operand, node.Contains (.unary "-" operand) ∧ operand.Bare) ∧
      ((∀ value : Float, node.Contains (.literal (.double value)) →
        value.toBits ≠ Number.Binary64.negativeZero) → ¬ Doubled '-' text.toList) := by
  obtain ⟨text, htext, hsigns⟩ := hformula.signed
  have hminus : Doubled '-' text.toList ↔
      ∃ operand, node.Contains (.unary "-" operand) ∧ operand.Bare := by
    rw [hsigns.doubled '-' (.inr rfl), Node.Clashes, and_iff_right rfl]
  refine ⟨text, hformula.render_eq.trans htext, ?_, hminus, ?_⟩
  · intro hplus
    obtain ⟨hequal, -⟩ := (hsigns.doubled '+' (.inl rfl)).mp hplus
    exact absurd hequal (by decide)
  · intro hzeros hdoubled
    obtain ⟨operand, hcontains, hbare⟩ := hminus.mp hdoubled
    obtain ⟨value, hinside, hvalue⟩ := hbare.contains_zero
    exact hzeros value (hcontains.trans (.inside (by simp [Node.children]) hinside)) hvalue

theorem formula_minus {operand : Node} (hoperand : Formula operand)
    (hpresent : operand.isAbsent = false) : Formula (.unary "-" operand) := by
  apply @Formula.unary "-" _ _ hoperand
  simp [Build.unary, unaryOperators, hpresent]

/-- Of two negative zeros that are subtracted with a minus in front, the one in single precision
is enclosed and the one in double precision is not. -/
theorem formula_decrements_iff_zeros :
    (Formula (.unary "-" (.literal (.float (-0.0)))) ∧
      ∃ text, (Node.unary "-" (.literal (.float (-0.0)))).render = .ok text ∧
        ¬ Doubled '+' text.toList ∧ ¬ Doubled '-' text.toList) ∧
    Formula (.unary "-" (.member (.literal (.double (-0.0))) "x")) ∧
      ∃ text, (Node.unary "-" (.member (.literal (.double (-0.0))) "x")).render = .ok text ∧
        ¬ Doubled '+' text.toList ∧ Doubled '-' text.toList := by
  have hsingle : Formula (.unary "-" (.literal (.float (-0.0)))) := formula_minus (.float _) rfl
  have hmember : Formula (.member (.literal (.double (-0.0))) "x") :=
    @Formula.member _ _ "x" (.double _) (by decide) rfl
  have hdouble : Formula (.unary "-" (.member (.literal (.double (-0.0))) "x")) :=
    formula_minus hmember rfl
  obtain ⟨text, htext, hplus, -, hfree⟩ := formula_decrements_iff hsingle
  obtain ⟨text', htext', hplus', hminus', -⟩ := formula_decrements_iff hdouble
  refine ⟨⟨hsingle, text, htext, hplus, hfree ?_⟩, hdouble, text', htext', hplus', ?_⟩
  · rintro value (_ | ⟨hchild, hinside⟩)
    rw [Node.children, List.mem_singleton] at hchild
    subst hchild
    rcases hinside with _ | ⟨hnone, -⟩
    cases hnone
  · exact hminus'.mpr ⟨_, .self _, .member (.zero (by decide))⟩

/-- The negation of a negative zero reads as a decrement. -/
theorem negated_zero_is_decrement :
    (Node.unary "-" (.literal (.double (-0.0)))).render = .ok "--0.0" := by
  have hzero : floatText (Number.Binary32.ofDouble (-0.0)) = "-0.0" :=
    floatText_negativeZero (by decide)
  have hbinding : (Node.literal (.double (-0.0))).binding = .primary := by decide
  change Except.ok ("-" ++ parenthesized (needsParentheses (Node.literal (.double (-0.0))).binding
    .unary true) (floatText (Number.Binary32.ofDouble (-0.0)))) = _
  rw [hzero, hbinding]
  rfl

end NoiseShader
