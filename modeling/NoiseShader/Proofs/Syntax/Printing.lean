import NoiseShader.Proofs.Syntax.Grammar
import Mathlib.Tactic

/-!
# Texts and the trees that they stand for

`Prints` ties a piece of source text to a tree: the tokens of the text derive
the tree at a level of the grammar, whatever stands after the text.  Two things
must not stand there.  A character of a word would go on with a name or a
numeral, and a point would become part of a numeral that has none.

For each way to put texts together there is one lemma that puts the trees
together.
-/

namespace NoiseShader

open Token (Reads symbol word startsWithWordChar isWordChar isName symbols Joins)

/-- A text that stands for a tree: its tokens derive the tree at a level, wherever no word goes on
after it, and no point follows unless the text is `pointed`. -/
structure Prints (level : ℕ) (text : String) (tokens : List Token) (node : Node)
    (pointed : Bool) : Prop where
  derives : Derives level tokens node
  reads : ∀ {rest : List Char}, startsWithWordChar rest = false →
    (rest.head? = some '.' → pointed = true) → Reads text.toList tokens rest
  opening : 14 ≤ level →
    ∃ c ∈ text.toList.head?, isWordChar c = true ∨ c = '('

namespace Prints

theorem lower {level higher : ℕ} {text : String} {tokens : List Token} {node : Node}
    {pointed : Bool} (hprints : Prints higher text tokens node pointed) (hle : level ≤ higher) :
    Prints level text tokens node pointed where
  derives := Derives.lower hle hprints.derives
  reads := hprints.reads
  opening h := hprints.opening (h.trans hle)

theorem unpointed {level : ℕ} {text : String} {tokens : List Token} {node : Node}
    {pointed : Bool} (hprints : Prints level text tokens node pointed) :
    Prints level text tokens node false where
  derives := hprints.derives
  reads hstop hpoint := hprints.reads hstop fun h => absurd (hpoint h) (by simp)
  opening := hprints.opening

theorem reads_bracket {s : String} (hs : s ∈ ["(", ")", "[", "]", ","]) (rest : List Char) :
    Reads s.toList [symbol s] rest := by
  have hall : ∀ s ∈ ["(", ")", "[", "]", ","], s ∈ symbols ∧ s ≠ "." ∧
      s ∈ ["(", ")", "[", "]", ".", ","] := by decide
  obtain ⟨hsymbol, hpoint, hbracket⟩ := hall s hs
  exact Token.reads_symbol hsymbol (fun h => absurd h hpoint) fun c _ =>
    Token.not_joins_of_bracket hbracket c

theorem parentheses {level : ℕ} {text : String} {tokens : List Token} {node : Node}
    {pointed : Bool} (hprints : Prints level text tokens node pointed) :
    Prints 15 ("(" ++ text ++ ")") (symbol "(" :: tokens ++ [symbol ")"]) node true where
  derives := Derives.parentheses (hprints.lower (Nat.zero_le _)).derives
  reads {rest} _ _ := by
    have hinside : Reads text.toList tokens (")".toList ++ rest) :=
      hprints.reads (by rfl) (by intro h; cases h)
    rw [String.toList_append, String.toList_append]
    exact ((reads_bracket (by simp) _).append hinside).append (reads_bracket (by simp) _)
  opening _ := ⟨'(', by simp, Or.inr rfl⟩

/-- An operand in parentheses where it needs them stands for the operand at the level of its
operator, or above it on the side where the operator does not group. -/
theorem operand {binding : Binding} {text : String} {tokens : List Token} {node : Node}
    {pointed : Bool} (hprints : Prints binding.rank text tokens node pointed) (parent : Binding)
    (grouped : Bool) (hparent : parent.rank < 15) :
    ∃ level tokens', Prints level (parenthesized (needsParentheses binding parent grouped) text)
        tokens' node (pointed || needsParentheses binding parent grouped) ∧
      parent.rank ≤ level ∧ (grouped = true → parent.rank < level) := by
  cases hneeds : needsParentheses binding parent grouped with
  | true =>
      refine ⟨15, symbol "(" :: tokens ++ [symbol ")"], ?_, hparent.le, fun _ => hparent⟩
      simpa [parenthesized] using hprints.parentheses
  | false =>
      simp only [needsParentheses, Bool.or_eq_false_iff, decide_eq_false_iff_not, Nat.not_lt,
        Bool.and_eq_false_iff, beq_eq_false_iff_ne] at hneeds
      refine ⟨binding.rank, tokens, ?_, hneeds.1, ?_⟩
      · simpa [parenthesized] using hprints
      · intro hgrouped
        rcases hneeds.2 with h | h
        · exact absurd hgrouped (by simp [h])
        · omega

theorem reads_before_blank {level : ℕ} {text : String} {tokens : List Token} {node : Node}
    {pointed : Bool} (hprints : Prints level text tokens node pointed) (rest : List Char) :
    Reads text.toList tokens (' ' :: rest) :=
  hprints.reads rfl (by intro h; cases h)

theorem reads_between {s separator : String} (hs : s ∈ symbols)
    (hseparator : separator.toList = ' ' :: s.toList ++ [' ']) {leftText rightText : String}
    {front back : List Token} {rest : List Char}
    (hleft : ∀ more, Reads leftText.toList front (' ' :: more))
    (hright : Reads rightText.toList back rest) :
    Reads (leftText ++ separator ++ rightText).toList (front ++ symbol s :: back) rest := by
  have hblank : ∀ more : List Char, ∀ c ∈ (' ' :: more).head?, ¬Joins s c := by
    intro more c hc hjoins
    have hmem := Token.mem_joiningChars_of_joins (Token.toList_ne_nil_of_mem_symbols hs) hjoins
    cases hc
    exact absurd hmem (by decide)
  have hsymbol : ∀ more, Reads (' ' :: s.toList) [symbol s] (' ' :: more) := fun more =>
    (Token.reads_symbol hs (fun _ => rfl) (hblank more)).blank
  have htext : (leftText ++ separator ++ rightText).toList =
      leftText.toList ++ ((' ' :: s.toList) ++ ' ' :: rightText.toList) := by
    simp [hseparator]
  have htokens : front ++ symbol s :: back = front ++ ([symbol s] ++ back) := rfl
  rw [htext, htokens]
  exact (hleft _).append ((hsymbol _).append hright.blank)

theorem binary {operator : String} {level higher : ℕ} {leftText rightText : String}
    {front back : List Token} {left right : Node} {leftPointed rightPointed : Bool}
    (hoperator : operatorLevel operator = some level) (hhigher : level < higher)
    (hleft : Prints level leftText front left leftPointed)
    (hright : Prints higher rightText back right rightPointed) :
    Prints level (leftText ++ " " ++ operator ++ " " ++ rightText)
      (front ++ symbol operator :: back) (.binary operator left right) false where
  derives := Derives.binary hoperator hhigher hleft.derives hright.derives
  reads hstop hpoint := by
    have hsymbol : ∀ group ∈ operatorGroups, ∀ operator ∈ group, operator ∈ symbols := by
      decide
    obtain ⟨group, hgroup, hmem⟩ := Parser.exists_group_of_operatorLevel hoperator
    have hseparator : (" " ++ operator ++ " ").toList = ' ' :: operator.toList ++ [' '] := by simp
    have hreads := reads_between (hsymbol group hgroup operator hmem) hseparator
      hleft.reads_before_blank (hright.unpointed.reads hstop hpoint)
    simpa only [String.append_assoc] using hreads
  opening h := by
    have := (Parser.operatorLevel_bounds hoperator).2
    omega

/-- A symbol right in front of an operand does not run into it. -/
theorem reads_symbol_before {level : ℕ} {text : String} {tokens : List Token} {node : Node}
    {pointed : Bool} (hprints : Prints level text tokens node pointed) (hlevel : 14 ≤ level)
    {s : String} (hs : s ∈ symbols) (hne : s ≠ ".") (rest : List Char) :
    Reads s.toList [symbol s] (text.toList ++ rest) := by
  obtain ⟨c, hc, hkind⟩ := hprints.opening hlevel
  apply Token.reads_symbol hs (fun h => absurd h hne)
  intro d hd hjoins
  have hjoining := Token.mem_joiningChars_of_joins (Token.toList_ne_nil_of_mem_symbols hs) hjoins
  rw [List.head?_append, Option.mem_def.mp hc] at hd
  cases hd
  rcases hkind with hword | hopen
  · exact Token.not_mem_joiningChars_of_isWordChar hword hjoining
  · rw [hopen] at hjoining
    exact absurd hjoining (by decide)

theorem unary {operator text : String} {level : ℕ} {tokens : List Token} {node : Node}
    {pointed : Bool} (hoperator : operator ∈ prefixOperators) (hlevel : 14 ≤ level)
    (hprints : Prints level text tokens node pointed) :
    Prints 13 (operator ++ text) (symbol operator :: tokens) (.unary operator node)
      pointed where
  derives := Derives.unary hoperator (hprints.lower (by omega)).derives
  reads {rest} hstop hpoint := by
    have hsymbol : ∀ s ∈ prefixOperators, s ∈ symbols ∧ s ≠ "." := by decide
    obtain ⟨hmem, hne⟩ := hsymbol operator hoperator
    rw [String.toList_append]
    exact (hprints.reads_symbol_before hlevel hmem hne rest).append (hprints.reads hstop hpoint)
  opening h := absurd h (by decide)

theorem conditional {conditionText trueText falseText : String} {front middle back : List Token}
    {condition whenTrue whenFalse : Node} {p q r : Bool}
    (hcondition : Prints 2 conditionText front condition p)
    (htrue : Prints 0 trueText middle whenTrue q)
    (hfalse : Prints 0 falseText back whenFalse r) :
    Prints 1 (conditionText ++ " ? " ++ trueText ++ " : " ++ falseText)
      (front ++ symbol "?" :: middle ++ symbol ":" :: back)
      (.conditional condition whenTrue whenFalse) false where
  derives := Derives.conditional hcondition.derives htrue.derives hfalse.derives
  reads hstop hpoint :=
    reads_between (by decide) rfl
      (fun more => reads_between (by decide) rfl hcondition.reads_before_blank
        (htrue.reads_before_blank more))
      (hfalse.unpointed.reads hstop hpoint)
  opening h := absurd h (by decide)

theorem assignment {targetText valueText : String} {front back : List Token} {target value : Node}
    {p q : Bool} (htarget : Prints 13 targetText front target p)
    (hvalue : Prints 0 valueText back value q) :
    Prints 0 (targetText ++ " = " ++ valueText) (front ++ symbol "=" :: back)
      (.assignment target value) false where
  derives := Derives.assignment htarget.derives hvalue.derives
  reads hstop hpoint :=
    reads_between (by decide) rfl htarget.reads_before_blank
      (hvalue.unpointed.reads hstop hpoint)
  opening h := absurd h (by decide)

theorem opening_append {text : String} (more : String)
    (hopening : ∃ c ∈ text.toList.head?, isWordChar c = true ∨ c = '(') :
    ∃ c ∈ (text ++ more).toList.head?, isWordChar c = true ∨ c = '(' := by
  obtain ⟨c, hc, hkind⟩ := hopening
  refine ⟨c, ?_, hkind⟩
  rw [String.toList_append, List.head?_append, Option.mem_def.mp hc]
  rfl

theorem member {text field : String} {tokens : List Token} {node : Node}
    (hfield : isName field = true) (hprints : Prints 14 text tokens node true) :
    Prints 14 (text ++ "." ++ field) (tokens ++ [symbol ".", word field])
      (.member node field) true where
  derives := Derives.member field hprints.derives
  reads {rest} hstop _ := by
    have hword := Token.reads_word hfield hstop
    have hpoint : Reads ".".toList [symbol "."] (field.toList ++ rest) :=
      Token.reads_symbol (by decide) (fun _ => Token.not_isDigit_of_isName hfield rest)
        fun c _ => Token.not_joins_of_bracket (by simp) c
    have hoperand : Reads text.toList tokens (".".toList ++ field.toList ++ rest) :=
      hprints.reads rfl fun _ => rfl
    rw [String.toList_append, String.toList_append, List.append_assoc]
    exact hoperand.append (hpoint.append hword)
  opening _ := opening_append _ (opening_append _ (hprints.opening le_rfl))

theorem index {text positionText : String} {tokens inside : List Token} {node position : Node}
    {p q : Bool} (hprints : Prints 14 text tokens node p)
    (hposition : Prints 0 positionText inside position q) :
    Prints 14 (text ++ "[" ++ positionText ++ "]")
      (tokens ++ symbol "[" :: inside ++ [symbol "]"]) (.index node position) true where
  derives := Derives.index hprints.derives hposition.derives
  reads {rest} _ _ := by
    have hinside : Reads positionText.toList inside ("]".toList ++ rest) :=
      hposition.reads (by rfl) (by intro h; cases h)
    have hoperand :
        Reads text.toList tokens ("[".toList ++ positionText.toList ++ "]".toList ++ rest) :=
      hprints.reads (by rfl) (by intro h; cases h)
    have htext : (text ++ "[" ++ positionText ++ "]").toList =
        text.toList ++ (("[".toList ++ positionText.toList) ++ "]".toList) := by simp
    rw [htext, List.append_assoc tokens]
    exact hoperand.append
      (((reads_bracket (by simp) _).append hinside).append (reads_bracket (by simp) _))
  opening _ :=
    opening_append _ (opening_append _ (opening_append _ (hprints.opening le_rfl)))

theorem name {text : String} (hname : isName text = true) (htrue : text ≠ "true")
    (hfalse : text ≠ "false") : Prints 15 text [word text] (.identifier text) true where
  derives := Derives.name htrue hfalse
  reads hstop _ := Token.reads_word hname hstop
  opening _ := by
    obtain ⟨c, tail, htext, hfirst⟩ := Token.exists_cons_of_isName hname
    exact ⟨c, by simp [htext], Or.inl (Token.isWordChar_of_isWordStart hfirst)⟩

theorem bool (value : Bool) :
    Prints 15 (if value then "true" else "false") [word (if value then "true" else "false")]
      (.literal (.bool value)) true where
  derives := Derives.bool value
  reads hstop _ := Token.reads_word (by cases value <;> decide) hstop
  opening _ := by
    cases value
    · exact ⟨'f', rfl, Or.inl rfl⟩
    · exact ⟨'t', rfl, Or.inl rfl⟩

theorem opening_of_digits {text : String} {digits more : List Char} (hne : digits ≠ [])
    (hdigits : ∀ c ∈ digits, c.isDigit = true) (htext : text.toList = digits ++ more) :
    ∃ c ∈ text.toList.head?, isWordChar c = true ∨ c = '(' := by
  obtain ⟨c, tail, hcons⟩ := List.exists_cons_of_ne_nil hne
  refine ⟨c, by simp [htext, hcons], Or.inl ?_⟩
  exact Token.isWordChar_of_isDigit (hdigits c (by simp [hcons]))

theorem integer (n : ℕ) :
    Prints 15 (Number.natText n) [.integer n] (.literal (.int n)) false where
  derives := Derives.integer n
  reads hstop hpoint := Token.reads_natText n hstop fun h => absurd (hpoint h) (by simp)
  opening _ := opening_of_digits Nat.toDigits_ne_nil (fun _ hc => Number.isDigit_toDigits hc)
    (by rw [Number.natText, String.toList_ofList, List.append_nil])

theorem unsigned (value : UInt32) :
    Prints 15 (Number.natText value.toNat ++ "u") [.unsigned value.toNat]
      (.literal (.uint value)) true where
  derives := Derives.unsigned value
  reads hstop _ := Token.reads_unsigned _ hstop
  opening _ := opening_of_digits Nat.toDigits_ne_nil (fun _ hc => Number.isDigit_toDigits hc)
    (by rw [Number.natText, String.toList_append, String.toList_ofList])

theorem decimal (numeral : Number.PointNumeral) :
    Prints 15 (String.ofList numeral.text) [.decimal numeral.value]
      (.literal (.float numeral.value)) true where
  derives := Derives.decimal numeral.value
  reads hstop _ := by
    rw [String.toList_ofList]
    exact Token.reads_pointNumeral numeral hstop
  opening _ := opening_of_digits numeral.whole_ne numeral.whole_digits (String.toList_ofList ..)

/-- A division without blanks, the way numbers without a notation are written. -/
theorem quotient {leftText rightText : String} {front back : List Token} {left right : Node}
    (hleft : Prints 12 leftText front left true)
    (hright : Prints 15 rightText back right true) :
    Prints 12 (leftText ++ "/" ++ rightText) (front ++ symbol "/" :: back)
      (.binary "/" left right) true where
  derives := Derives.binary (by decide) (by decide) hleft.derives hright.derives
  reads {rest} hstop hpoint := by
    have hsymbol : Reads "/".toList [symbol "/"] (rightText.toList ++ rest) :=
      hright.reads_symbol_before (by decide) (by decide) (by decide) rest
    have hdividend : Reads leftText.toList front ("/".toList ++ rightText.toList ++ rest) :=
      hleft.reads rfl fun _ => rfl
    rw [String.toList_append, String.toList_append, List.append_assoc]
    exact hdividend.append (hsymbol.append (hright.reads hstop hpoint))
  opening h := absurd h (by decide)

end Prints

end NoiseShader
