import NoiseShader.Proofs.Syntax.Token
import NoiseShader.Syntax.Render
import Mathlib.Tactic

/-!
# The expression grammar

`Derives` is the grammar of expressions of the shading language, one constructor
for each of its rules, and `Parser.parse` a parser for it that looks one token
ahead.  The parser finds every tree that the grammar derives from a list of
tokens, and it finds only one; so the grammar is not ambiguous.

The parser reads an operand with its prefixes and postfixes first and then
decides, by the symbol after it, whether the operand is assigned to, is the left
side of an operator, or stands alone.
-/

namespace NoiseShader

open Token (symbol word)

/-- The binary operators, those that bind more loosely first. -/
def operatorGroups : List (List String) :=
  [["||"], ["^^"], ["&&"], ["|"], ["^"], ["&"], ["==", "!="], ["<", ">", "<=", ">="], ["<<", ">>"],
    ["+", "-"], ["*", "/", "%"]]

def operatorLevel (operator : String) : Option ℕ :=
  (operatorGroups.findIdx? (·.contains operator)).map (· + 2)

def prefixOperators : List String := ["-", "+", "!", "~"]

/-- The trees that a list of tokens stands for at a level of the expression grammar.  The levels
are numbered from the loosest: assignments 0, conditionals 1, the groups of binary operators 2 to
12, signs and other operators in front of their operand 13, selections 14, and what needs no
operator 15.  Binary operators group to the left, so their right operand is of a higher level;
assignments group to the right.  A tree of some level can stand where a lower one is expected. -/
inductive Derives : ℕ → List Token → Node → Prop
  | name {text : String} (htrue : text ≠ "true") (hfalse : text ≠ "false") :
      Derives 15 [word text] (.identifier text)
  | bool (value : Bool) :
      Derives 15 [word (if value then "true" else "false")] (.literal (.bool value))
  | integer (value : ℕ) : Derives 15 [.integer value] (.literal (.int value))
  | unsigned (value : UInt32) : Derives 15 [.unsigned value.toNat] (.literal (.uint value))
  | decimal (value : Float32) : Derives 15 [.decimal value] (.literal (.float value))
  | parentheses {tokens : List Token} {node : Node} (hinside : Derives 0 tokens node) :
      Derives 15 (symbol "(" :: tokens ++ [symbol ")"]) node
  | call {text : String} (htrue : text ≠ "true") (hfalse : text ≠ "false")
      (pieces : List (List Token × Node)) (hpieces : ∀ piece ∈ pieces, Derives 0 piece.1 piece.2) :
      Derives 15
        (word text :: symbol "(" :: [symbol ","].intercalate (pieces.map Prod.fst) ++ [symbol ")"])
        (.call text (pieces.map Prod.snd))
  | member {tokens : List Token} {node : Node} (field : String)
      (hoperand : Derives 14 tokens node) :
      Derives 14 (tokens ++ [symbol ".", word field]) (.member node field)
  | index {tokens inside : List Token} {node position : Node}
      (hoperand : Derives 14 tokens node) (hposition : Derives 0 inside position) :
      Derives 14 (tokens ++ symbol "[" :: inside ++ [symbol "]"]) (.index node position)
  | unary {operator : String} {tokens : List Token} {node : Node}
      (hoperator : operator ∈ prefixOperators) (hoperand : Derives 13 tokens node) :
      Derives 13 (symbol operator :: tokens) (.unary operator node)
  | binary {operator : String} {level higher : ℕ} {front back : List Token} {left right : Node}
      (hoperator : operatorLevel operator = some level) (hhigher : level < higher)
      (hleft : Derives level front left) (hright : Derives higher back right) :
      Derives level (front ++ symbol operator :: back) (.binary operator left right)
  | conditional {front middle back : List Token} {condition whenTrue whenFalse : Node}
      (hcondition : Derives 2 front condition)
      (htrue : Derives 0 middle whenTrue) (hfalse : Derives 0 back whenFalse) :
      Derives 1 (front ++ symbol "?" :: middle ++ symbol ":" :: back)
        (.conditional condition whenTrue whenFalse)
  | assignment {front back : List Token} {target value : Node}
      (htarget : Derives 13 front target) (hvalue : Derives 0 back value) :
      Derives 0 (front ++ symbol "=" :: back) (.assignment target value)
  | lower {level higher : ℕ} {tokens : List Token} {node : Node} (hle : level ≤ higher)
      (hhigher : Derives higher tokens node) : Derives level tokens node

namespace Parser

/-- The tokens after a symbol, if they start with it. -/
def accept (text : String) : List Token → Option (List Token)
  | .symbol found :: rest => if found = text then some rest else none
  | _ => none

def acceptPrefixed : List Token → Option (String × List Token)
  | .symbol found :: rest => if found ∈ prefixOperators then some (found, rest) else none
  | _ => none

def acceptBinary : List Token → Option (String × ℕ × List Token)
  | .symbol found :: rest => (operatorLevel found).map fun level => (found, level, rest)
  | _ => none

mutual

/-- An assignment or what binds tighter.  Only what follows the first operand tells whether it is
assigned to. -/
def parseAssignment : ℕ → List Token → Option (Node × List Token)
  | 0, _ => none
  | fuel + 1, tokens => do
    let (first, rest) ← parseUnary fuel tokens
    match accept "=" rest with
    | some rest => do
      let (value, rest) ← parseAssignment fuel rest
      return (.assignment first value, rest)
    | none => do
      let (condition, rest) ← parseBinary fuel 1 first rest
      match accept "?" rest with
      | none => return (condition, rest)
      | some rest => do
        let (whenTrue, rest) ← parseAssignment fuel rest
        let rest ← accept ":" rest
        let (whenFalse, rest) ← parseAssignment fuel rest
        return (.conditional condition whenTrue whenFalse, rest)

def parseUnary : ℕ → List Token → Option (Node × List Token)
  | 0, _ => none
  | fuel + 1, tokens =>
    match acceptPrefixed tokens with
    | some (operator, rest) => do
      let (operand, rest) ← parseUnary fuel rest
      return (.unary operator operand, rest)
    | none => do
      let (first, rest) ← parsePrimary fuel tokens
      parsePostfix fuel first rest

/-- The binary operators of a level above `least` that follow an operand. -/
def parseBinary : ℕ → ℕ → Node → List Token → Option (Node × List Token)
  | 0, _, _, _ => none
  | fuel + 1, least, left, tokens =>
    match acceptBinary tokens with
    | some (operator, level, rest) =>
      if least < level then do
        let (first, rest) ← parseUnary fuel rest
        let (right, rest) ← parseBinary fuel level first rest
        parseBinary fuel least (.binary operator left right) rest
      else some (left, tokens)
    | none => some (left, tokens)

def parsePostfix : ℕ → Node → List Token → Option (Node × List Token)
  | 0, _, _ => none
  | fuel + 1, operand, tokens =>
    match accept "." tokens with
    | some (.word field :: rest) => parsePostfix fuel (.member operand field) rest
    | some _ => none
    | none =>
      match accept "[" tokens with
      | none => some (operand, tokens)
      | some rest => do
        let (position, rest) ← parseAssignment fuel rest
        let rest ← accept "]" rest
        parsePostfix fuel (.index operand position) rest

def parsePrimary : ℕ → List Token → Option (Node × List Token)
  | 0, _ => none
  | _ + 1, [] => none
  | _ + 1, .integer value :: rest => some (.literal (.int value), rest)
  | _ + 1, .unsigned value :: rest =>
    if value < UInt32.size then some (.literal (.uint (UInt32.ofNat value)), rest) else none
  | _ + 1, .decimal value :: rest => some (.literal (.float value), rest)
  | fuel + 1, .symbol text :: rest =>
    if text = "(" then do
      let (node, rest) ← parseAssignment fuel rest
      let rest ← accept ")" rest
      return (node, rest)
    else none
  | fuel + 1, .word text :: rest =>
    if text = "true" then some (.literal (.bool true), rest)
    else if text = "false" then some (.literal (.bool false), rest)
    else
      match accept "(" rest with
      | none => some (.identifier text, rest)
      | some rest =>
        match accept ")" rest with
        | some rest => some (.call text [], rest)
        | none => do
          let (arguments, rest) ← parseArguments fuel rest
          return (.call text arguments, rest)

def parseArguments : ℕ → List Token → Option (List Node × List Token)
  | 0, _ => none
  | fuel + 1, tokens => do
    let (first, rest) ← parseAssignment fuel tokens
    match accept "," rest with
    | some rest => do
      let (others, rest) ← parseArguments fuel rest
      return (first :: others, rest)
    | none => do
      let rest ← accept ")" rest
      return ([first], rest)

end

attribute [local simp] accept acceptPrefixed acceptBinary parseAssignment parseUnary parseBinary
  parsePostfix parsePrimary parseArguments

def parse (tokens : List Token) : Option Node :=
  match parseAssignment (4 * tokens.length + 4) tokens with
  | some (node, []) => some node
  | _ => none

/-! ## What may follow an expression -/

/-- The lowest level of an expression that a symbol can stand after. -/
def followLevel (text : String) : Option ℕ :=
  if text ∈ [")", "]", ",", ":"] then some 0
  else if text = "?" then some 2
  else if text = "=" then some 13
  else if text = "." ∨ text = "[" then some 14
  else operatorLevel text

/-- Tokens that can stand after an expression of a level. -/
def MayFollow (level : ℕ) (rest : List Token) : Prop :=
  ∀ token ∈ rest.head?, ∃ text least, token = symbol text ∧ followLevel text = some least ∧
    least ≤ level

theorem MayFollow.nil (level : ℕ) : MayFollow level [] := by
  intro token htoken
  cases htoken

theorem MayFollow.cons {level least : ℕ} {text : String} (hlevel : followLevel text = some least)
    (hle : least ≤ level) (rest : List Token) : MayFollow level (symbol text :: rest) := by
  intro token htoken
  cases htoken
  exact ⟨text, least, rfl, hlevel, hle⟩

theorem MayFollow.mono {level higher : ℕ} {rest : List Token} (hfollow : MayFollow level rest)
    (hle : level ≤ higher) : MayFollow higher rest := by
  intro token htoken
  obtain ⟨text, least, htext, hlevel, hleast⟩ := hfollow token htoken
  exact ⟨text, least, htext, hlevel, hleast.trans hle⟩

@[simp] theorem accept_self (text : String) (rest : List Token) :
    accept text (symbol text :: rest) = some rest := by
  simp [accept]

/-- A symbol is not found after an expression of too low a level for it. -/
theorem MayFollow.accept_eq_none {level : ℕ} {rest : List Token} (hfollow : MayFollow level rest)
    {text : String} (htext : ∀ least, followLevel text = some least → level < least) :
    accept text rest = none := by
  cases rest with
  | nil => rfl
  | cons token tail =>
      obtain ⟨found, least, rfl, hlevel, hle⟩ := hfollow token rfl
      rw [accept, if_neg]
      rintro rfl
      exact absurd (htext least hlevel) (by omega)

theorem exists_group_of_operatorLevel {operator : String} {level : ℕ}
    (hoperator : operatorLevel operator = some level) :
    ∃ group ∈ operatorGroups, operator ∈ group := by
  obtain ⟨index, hindex, -⟩ := Option.map_eq_some_iff.mp hoperator
  have hfound := List.findIdx?_eq_some_iff_getElem.mp hindex
  obtain ⟨hlt, hcontains, -⟩ := hfound
  exact ⟨_, List.getElem_mem hlt, by simpa using hcontains⟩

theorem followLevel_of_operatorLevel {operator : String} {level : ℕ}
    (hoperator : operatorLevel operator = some level) : followLevel operator = some level := by
  have hall : ∀ group ∈ operatorGroups, ∀ operator ∈ group,
      followLevel operator = operatorLevel operator := by decide
  obtain ⟨group, hgroup, hmem⟩ := exists_group_of_operatorLevel hoperator
  rw [hall group hgroup operator hmem, hoperator]

theorem operatorLevel_bounds {operator : String} {level : ℕ}
    (hoperator : operatorLevel operator = some level) : 2 ≤ level ∧ level ≤ 12 := by
  obtain ⟨index, hindex, hlevel⟩ := Option.map_eq_some_iff.mp hoperator
  have hlt : index < operatorGroups.length := (List.findIdx?_eq_some_iff_getElem.mp hindex).1
  have hlength : operatorGroups.length = 11 := rfl
  omega

theorem acceptBinary_cons {operator : String} {level : ℕ}
    (hoperator : operatorLevel operator = some level) (rest : List Token) :
    acceptBinary (symbol operator :: rest) = some (operator, level, rest) := by
  simp [acceptBinary, hoperator]

/-- Operators of too low a level end a chain of operands. -/
theorem parseBinary_stop {fuel least level : ℕ} {node : Node} {rest : List Token}
    (hfollow : MayFollow level rest) (hle : level ≤ least) (hfuel : 0 < fuel) :
    parseBinary fuel least node rest = some (node, rest) := by
  obtain ⟨fuel, rfl⟩ := Nat.exists_eq_succ_of_ne_zero hfuel.ne'
  rw [parseBinary]
  split
  next operator found tail hstarts =>
    rw [if_neg]
    cases rest with
    | nil => simp [acceptBinary] at hstarts
    | cons token others =>
        obtain ⟨text, bound, rfl, hbound, hboundLe⟩ := hfollow token rfl
        obtain ⟨level', hlevel', heq⟩ := Option.map_eq_some_iff.mp hstarts
        cases heq
        rw [followLevel_of_operatorLevel hlevel', Option.some.injEq] at hbound
        omega
  next => rfl

/-! ## What the parser does with the tokens of each level

The fuel that each statement asks for is a multiple of the number of tokens, so that a whole list
of tokens says how much is enough.  Where the parser loops, over postfixes or over binary
operators, the statement compares two states of the loop and the fuel that is left in them. -/

structure PrimaryParses (tokens : List Token) (node : Node) : Prop where
  noOperator : ∀ rest, acceptPrefixed (tokens ++ rest) = none
  parses : ∀ ⦃rest : List Token⦄ ⦃fuel : ℕ⦄, MayFollow 14 rest → 4 * tokens.length ≤ fuel →
    parsePrimary fuel (tokens ++ rest) = some (node, rest)

structure PostfixParses (tokens : List Token) (node : Node) : Prop where
  noOperator : ∀ rest, acceptPrefixed (tokens ++ rest) = none
  parses : ∀ ⦃rest : List Token⦄ ⦃fuel : ℕ⦄, MayFollow 14 rest → 4 * tokens.length ≤ fuel →
    ∃ first middle left, parsePrimary fuel (tokens ++ rest) = some (first, middle) ∧
      parsePostfix fuel first middle = parsePostfix left node rest ∧ fuel ≤ left + tokens.length

def UnaryParses (tokens : List Token) (node : Node) : Prop :=
  ∀ ⦃rest : List Token⦄ ⦃fuel : ℕ⦄, MayFollow 13 rest → 4 * tokens.length + 1 ≤ fuel →
    parseUnary fuel (tokens ++ rest) = some (node, rest)

def BinaryParses (level : ℕ) (tokens : List Token) (node : Node) : Prop :=
  ∀ ⦃rest : List Token⦄ ⦃fuel least : ℕ⦄, MayFollow level rest → least < level →
    4 * tokens.length + 1 ≤ fuel →
    ∃ first middle left, parseUnary fuel (tokens ++ rest) = some (first, middle) ∧
      accept "=" middle = none ∧
      parseBinary fuel least first middle = parseBinary left least node rest ∧
      fuel ≤ left + tokens.length

/-- The tokens are all of the right operand of an operator of a level. -/
def OperandParses (level : ℕ) (tokens : List Token) (node : Node) : Prop :=
  ∀ ⦃rest : List Token⦄ ⦃fuel : ℕ⦄, MayFollow level rest → 4 * tokens.length + 1 ≤ fuel →
    ∃ first middle, parseUnary fuel (tokens ++ rest) = some (first, middle) ∧
      parseBinary fuel level first middle = some (node, rest)

def AssignmentParses (tokens : List Token) (node : Node) : Prop :=
  ∀ ⦃rest : List Token⦄ ⦃fuel : ℕ⦄, MayFollow 1 rest → 4 * tokens.length + 2 ≤ fuel →
    parseAssignment fuel (tokens ++ rest) = some (node, rest)

theorem PrimaryParses.postfixed {tokens : List Token} {node : Node}
    (hparses : PrimaryParses tokens node) : PostfixParses tokens node where
  noOperator := hparses.noOperator
  parses {rest fuel} hfollow hfuel :=
    ⟨node, rest, fuel, hparses.parses hfollow hfuel, rfl, Nat.le_add_right _ _⟩

theorem parsePostfix_stop {fuel : ℕ} {node : Node} {rest : List Token}
    (hfollow : MayFollow 13 rest) (hfuel : 0 < fuel) :
    parsePostfix fuel node rest = some (node, rest) := by
  obtain ⟨fuel, rfl⟩ := Nat.exists_eq_succ_of_ne_zero hfuel.ne'
  have hpoint : accept "." rest = none := hfollow.accept_eq_none (by decide)
  have hbracket : accept "[" rest = none := hfollow.accept_eq_none (by decide)
  rw [parsePostfix, hpoint, hbracket]

theorem tokens_ne_nil_of_noOperator {tokens : List Token}
    (hnone : ∀ rest, acceptPrefixed (tokens ++ rest) = none) : 0 < tokens.length := by
  cases tokens with
  | nil => exact absurd (hnone [symbol "-"]) (by decide)
  | cons token tail => simp

theorem PostfixParses.unary {tokens : List Token} {node : Node}
    (hparses : PostfixParses tokens node) : UnaryParses tokens node := by
  intro rest fuel hfollow hfuel
  have hlength := tokens_ne_nil_of_noOperator hparses.noOperator
  obtain ⟨fuel, rfl⟩ := Nat.exists_eq_succ_of_ne_zero (n := fuel) (by omega)
  obtain ⟨first, middle, left, hfirst, hloop, hleft⟩ :=
    hparses.parses (hfollow.mono (by omega)) (Nat.le_of_succ_le_succ hfuel)
  rw [parseUnary, hparses.noOperator, hfirst]
  simp only [Option.bind_eq_bind, Option.bind_some]
  rw [hloop, parsePostfix_stop hfollow (by omega)]

theorem UnaryParses.binary {tokens : List Token} {node : Node} (hparses : UnaryParses tokens node)
    {level : ℕ} (hlevel : level ≤ 12) : BinaryParses level tokens node := by
  intro rest fuel least hfollow hleast hfuel
  refine ⟨node, rest, fuel, hparses (hfollow.mono (by omega)) hfuel, ?_, rfl, by omega⟩
  exact (hfollow.mono hlevel).accept_eq_none (by decide)

theorem BinaryParses.mono {level higher : ℕ} {tokens : List Token} {node : Node}
    (hparses : BinaryParses higher tokens node) (hle : level ≤ higher) :
    BinaryParses level tokens node := by
  intro rest fuel least hfollow hleast hfuel
  exact hparses (hfollow.mono hle) (hleast.trans_le hle) hfuel

theorem BinaryParses.assignment {tokens : List Token} {node : Node}
    (hparses : BinaryParses 2 tokens node) : AssignmentParses tokens node := by
  intro rest fuel hfollow hfuel
  obtain ⟨fuel, rfl⟩ := Nat.exists_eq_succ_of_ne_zero (n := fuel) (by omega)
  obtain ⟨first, middle, left, hfirst, hequals, hloop, hleft⟩ :=
    @hparses rest fuel 1 (hfollow.mono (by omega)) (by omega) (by omega)
  have hquestion : accept "?" rest = none := hfollow.accept_eq_none (by decide)
  rw [parseAssignment, hfirst]
  simp only [Option.bind_eq_bind, Option.bind_some]
  rw [hequals]
  simp only
  rw [hloop, parseBinary_stop hfollow le_rfl (by omega)]
  simp only [Option.bind_some]
  rw [hquestion]
  rfl

/-! ## One rule of the grammar at a time -/

theorem PostfixParses.member {tokens : List Token} {node : Node}
    (hparses : PostfixParses tokens node) (field : String) :
    PostfixParses (tokens ++ [symbol ".", word field]) (.member node field) where
  noOperator rest := by
    rw [List.append_assoc]
    exact hparses.noOperator _
  parses {rest fuel} _ hfuel := by
    rw [List.length_append] at hfuel
    obtain ⟨first, middle, left, hfirst, hloop, hleft⟩ :=
      @PostfixParses.parses _ _ hparses (symbol "." :: word field :: rest) fuel
        (MayFollow.cons (by decide) le_rfl _) (by omega)
    obtain ⟨left, rfl⟩ := Nat.exists_eq_succ_of_ne_zero (n := left) (by simp at hfuel; omega)
    refine ⟨first, middle, left, ?_, ?_, ?_⟩
    · rw [List.append_assoc]
      exact hfirst
    · rw [hloop, parsePostfix, accept_self]
    · simp
      omega

theorem PostfixParses.index {tokens inside : List Token} {node position : Node}
    (hparses : PostfixParses tokens node) (hposition : AssignmentParses inside position) :
    PostfixParses (tokens ++ symbol "[" :: inside ++ [symbol "]"]) (.index node position) where
  noOperator rest := by
    rw [List.append_assoc, List.append_assoc]
    exact hparses.noOperator _
  parses {rest fuel} _ hfuel := by
    simp only [List.length_append, List.length_cons, List.length_nil] at hfuel
    obtain ⟨first, middle, left, hfirst, hloop, hleft⟩ :=
      @PostfixParses.parses _ _ hparses (symbol "[" :: (inside ++ symbol "]" :: rest)) fuel
        (MayFollow.cons (by decide) le_rfl _) (by omega)
    obtain ⟨left, rfl⟩ := Nat.exists_eq_succ_of_ne_zero (n := left) (by omega)
    have hclosed : MayFollow 1 (symbol "]" :: rest) :=
      MayFollow.cons (by decide) (Nat.zero_le 1) _
    refine ⟨first, middle, left, ?_, ?_, ?_⟩
    · rw [List.append_assoc, List.append_assoc]
      simpa using hfirst
    · rw [hloop, parsePostfix, accept_self]
      have hpoint : accept "." (symbol "[" :: (inside ++ symbol "]" :: rest)) = none := by
        simp [accept]
      rw [hpoint]
      simp only
      rw [hposition hclosed (by omega)]
      simp
    · simp
      omega

theorem UnaryParses.unary {tokens : List Token} {node : Node} {operator : String}
    (hparses : UnaryParses tokens node) (hoperator : operator ∈ prefixOperators) :
    UnaryParses (symbol operator :: tokens) (.unary operator node) := by
  intro rest fuel hfollow hfuel
  rw [List.length_cons] at hfuel
  obtain ⟨fuel, rfl⟩ := Nat.exists_eq_succ_of_ne_zero (n := fuel) (by omega)
  rw [List.cons_append, parseUnary, acceptPrefixed, if_pos hoperator]
  simp only
  rw [hparses hfollow (by omega)]
  rfl

theorem UnaryParses.operand {tokens : List Token} {node : Node}
    (hparses : UnaryParses tokens node) {level : ℕ} (hlevel : level ≤ 12) :
    OperandParses level tokens node := by
  intro rest fuel hfollow hfuel
  exact ⟨node, rest, hparses (hfollow.mono (by omega)) hfuel,
    parseBinary_stop hfollow le_rfl (by omega)⟩

theorem BinaryParses.operand {tokens : List Token} {node : Node} {level higher : ℕ}
    (hparses : BinaryParses higher tokens node) (hhigher : level < higher) :
    OperandParses level tokens node := by
  intro rest fuel hfollow hfuel
  obtain ⟨first, middle, left, hfirst, -, hloop, hleft⟩ :=
    hparses (hfollow.mono hhigher.le) hhigher hfuel
  refine ⟨first, middle, hfirst, ?_⟩
  rw [hloop, parseBinary_stop hfollow le_rfl (by omega)]

theorem BinaryParses.binary {front back : List Token} {left right : Node} {operator : String}
    {level : ℕ} (hoperator : operatorLevel operator = some level)
    (hleft : BinaryParses level front left) (hright : OperandParses level back right) :
    BinaryParses level (front ++ symbol operator :: back) (.binary operator left right) := by
  intro rest fuel least hfollow hleast hfuel
  simp only [List.length_append, List.length_cons] at hfuel
  obtain ⟨first, middle, remaining, hfirst, hequals, hloop, hremaining⟩ :=
    @hleft (symbol operator :: (back ++ rest)) fuel least
      (MayFollow.cons (followLevel_of_operatorLevel hoperator) le_rfl _) hleast (by omega)
  obtain ⟨remaining, rfl⟩ := Nat.exists_eq_succ_of_ne_zero (n := remaining) (by omega)
  obtain ⟨second, after, hsecond, hoperand⟩ := @hright rest remaining hfollow (by omega)
  refine ⟨first, middle, remaining, ?_, hequals, ?_, ?_⟩
  · rw [List.append_assoc]
    exact hfirst
  · rw [hloop, parseBinary, acceptBinary_cons hoperator]
    simp only
    rw [if_pos hleast, hsecond]
    simp only [Option.bind_eq_bind, Option.bind_some]
    rw [hoperand]
    rfl
  · simp
    omega

theorem AssignmentParses.conditional {front middle back : List Token}
    {condition whenTrue whenFalse : Node} (hcondition : BinaryParses 2 front condition)
    (htrue : AssignmentParses middle whenTrue) (hfalse : AssignmentParses back whenFalse) :
    AssignmentParses (front ++ symbol "?" :: middle ++ symbol ":" :: back)
      (.conditional condition whenTrue whenFalse) := by
  intro rest fuel hfollow hfuel
  simp only [List.length_append, List.length_cons] at hfuel
  obtain ⟨fuel, rfl⟩ := Nat.exists_eq_succ_of_ne_zero (n := fuel) (by omega)
  have hquestion : MayFollow 2 (symbol "?" :: (middle ++ symbol ":" :: (back ++ rest))) :=
    MayFollow.cons (by decide) le_rfl _
  have hcolon : MayFollow 1 (symbol ":" :: (back ++ rest)) :=
    MayFollow.cons (by decide) (Nat.zero_le 1) _
  obtain ⟨first, after, left, hfirst, hequals, hloop, hleft⟩ :=
    @hcondition _ fuel 1 hquestion (by omega) (by omega)
  have htokens : front ++ symbol "?" :: middle ++ symbol ":" :: back ++ rest =
      front ++ (symbol "?" :: (middle ++ symbol ":" :: (back ++ rest))) := by simp
  have hstop : parseBinary left 1 condition
      (symbol "?" :: (middle ++ symbol ":" :: (back ++ rest))) =
      some (condition, symbol "?" :: (middle ++ symbol ":" :: (back ++ rest))) := by
    obtain ⟨left, rfl⟩ := Nat.exists_eq_succ_of_ne_zero (n := left) (by omega)
    have hnone : operatorLevel "?" = none := by decide
    rw [parseBinary]
    simp [acceptBinary, hnone]
  rw [htokens, parseAssignment, hfirst]
  simp only [Option.bind_eq_bind, Option.bind_some]
  rw [hequals]
  simp only
  rw [hloop, hstop]
  simp only [Option.bind_some]
  rw [accept_self]
  simp only
  rw [htrue hcolon (by omega)]
  simp only [Option.bind_some]
  rw [accept_self]
  simp only [Option.bind_some]
  rw [hfalse hfollow (by omega)]
  rfl

theorem AssignmentParses.assignment {front back : List Token} {target value : Node}
    (htarget : UnaryParses front target) (hvalue : AssignmentParses back value) :
    AssignmentParses (front ++ symbol "=" :: back) (.assignment target value) := by
  intro rest fuel hfollow hfuel
  simp only [List.length_append, List.length_cons] at hfuel
  obtain ⟨fuel, rfl⟩ := Nat.exists_eq_succ_of_ne_zero (n := fuel) (by omega)
  have hequals : MayFollow 13 (symbol "=" :: (back ++ rest)) :=
    MayFollow.cons (by decide) le_rfl _
  rw [List.append_assoc, parseAssignment, List.cons_append, htarget hequals (by omega)]
  simp only [Option.bind_eq_bind, Option.bind_some]
  rw [accept_self]
  simp only
  rw [hvalue hfollow (by omega)]
  rfl

theorem primaryParses_of_token {token : Token} {node : Node}
    (htoken : ∀ text, token ≠ symbol text)
    (hparses : ∀ ⦃rest : List Token⦄ ⦃fuel : ℕ⦄, MayFollow 14 rest →
      parsePrimary (fuel + 1) (token :: rest) = some (node, rest)) :
    PrimaryParses [token] node where
  noOperator rest := by
    cases token with
    | symbol text => exact absurd rfl (htoken text)
    | _ => rfl
  parses {rest fuel} hfollow hfuel := by
    obtain ⟨fuel, rfl⟩ := Nat.exists_eq_succ_of_ne_zero (n := fuel) (by simp at hfuel; omega)
    exact hparses hfollow

theorem MayFollow.accept_open {level : ℕ} {rest : List Token} (hfollow : MayFollow level rest) :
    accept "(" rest = none := by
  have hnone : followLevel "(" = none := by decide
  apply hfollow.accept_eq_none
  intro least hleast
  rw [hnone] at hleast
  cases hleast

theorem PrimaryParses.name {text : String} (htrue : text ≠ "true") (hfalse : text ≠ "false") :
    PrimaryParses [word text] (.identifier text) := by
  apply primaryParses_of_token (by simp)
  intro rest fuel hfollow
  rw [parsePrimary, if_neg htrue, if_neg hfalse, hfollow.accept_open]

theorem PrimaryParses.bool (value : Bool) :
    PrimaryParses [word (if value then "true" else "false")] (.literal (.bool value)) := by
  apply primaryParses_of_token (by simp)
  intro rest fuel _
  cases value <;> simp [parsePrimary]

theorem PrimaryParses.integer (value : ℕ) :
    PrimaryParses [.integer value] (.literal (.int value)) := by
  apply primaryParses_of_token (by simp)
  intro rest fuel _
  rw [parsePrimary]

theorem PrimaryParses.unsigned (value : UInt32) :
    PrimaryParses [.unsigned value.toNat] (.literal (.uint value)) := by
  apply primaryParses_of_token (by simp)
  intro rest fuel _
  rw [parsePrimary, if_pos value.toNat_lt, UInt32.ofNat_toNat]

theorem PrimaryParses.decimal (value : Float32) :
    PrimaryParses [.decimal value] (.literal (.float value)) := by
  apply primaryParses_of_token (by simp)
  intro rest fuel _
  rw [parsePrimary]

theorem PrimaryParses.parentheses {tokens : List Token} {node : Node}
    (hinside : AssignmentParses tokens node) :
    PrimaryParses (symbol "(" :: tokens ++ [symbol ")"]) node where
  noOperator rest := by
    simp [acceptPrefixed, prefixOperators]
  parses {rest fuel} _ hfuel := by
    simp only [List.length_append, List.length_cons, List.length_nil] at hfuel
    obtain ⟨fuel, rfl⟩ := Nat.exists_eq_succ_of_ne_zero (n := fuel) (by omega)
    have hclosed : MayFollow 1 (symbol ")" :: rest) :=
      MayFollow.cons (by decide) (Nat.zero_le 1) _
    rw [List.append_assoc, List.cons_append, parsePrimary, if_pos rfl, List.singleton_append,
      hinside hclosed (by omega)]
    simp

theorem parseArguments_pieces {first : List Token × Node} {others : List (List Token × Node)}
    (hpieces : ∀ piece ∈ first :: others, AssignmentParses piece.1 piece.2) {rest : List Token}
    {fuel : ℕ}
    (hfuel : 4 * ([symbol ","].intercalate ((first :: others).map Prod.fst)).length + 3 ≤ fuel) :
    parseArguments fuel
        ([symbol ","].intercalate ((first :: others).map Prod.fst) ++ symbol ")" :: rest) =
      some ((first :: others).map Prod.snd, rest) := by
  induction others generalizing first fuel with
  | nil =>
      obtain ⟨fuel, rfl⟩ := Nat.exists_eq_succ_of_ne_zero (n := fuel) (by omega)
      have hclosed : MayFollow 1 (symbol ")" :: rest) :=
        MayFollow.cons (by decide) (Nat.zero_le 1) _
      simp only [List.map_cons, List.map_nil, List.intercalate_singleton] at hfuel ⊢
      rw [parseArguments, hpieces first (by simp) hclosed (by omega)]
      simp [accept]
  | cons second others ih =>
      obtain ⟨fuel, rfl⟩ := Nat.exists_eq_succ_of_ne_zero (n := fuel) (by omega)
      have hrest :=
        @ih second (fun piece hpiece => hpieces piece (List.mem_cons_of_mem _ hpiece)) fuel
      have hcomma : ∀ more : List Token, MayFollow 1 (symbol "," :: more) :=
        MayFollow.cons (by decide) (Nat.zero_le 1)
      simp only [List.map_cons, List.intercalate_cons_cons, List.length_append, List.length_cons,
        List.append_assoc, List.singleton_append] at hfuel hrest ⊢
      rw [List.cons_append, parseArguments, hpieces first (by simp) (hcomma _) (by omega)]
      simp only [Option.bind_eq_bind, Option.bind_some]
      rw [accept_self]
      simp only
      rw [hrest (by omega)]
      rfl

theorem eq_cons_of_accept {text : String} {tokens rest : List Token}
    (haccept : accept text tokens = some rest) : tokens = symbol text :: rest := by
  unfold accept at haccept
  split at haccept
  next found more =>
    split_ifs at haccept with hfound
    rw [hfound, Option.some.inj haccept]
  next => cases haccept

theorem parseArguments_close (fuel : ℕ) (rest : List Token) :
    parseArguments fuel (symbol ")" :: rest) = none := by
  have hprimary : ∀ fuel, parsePrimary fuel (symbol ")" :: rest) = none := by
    intro fuel
    cases fuel <;> simp [parsePrimary]
  have hunary : ∀ fuel, parseUnary fuel (symbol ")" :: rest) = none := by
    intro fuel
    cases fuel <;> simp [parseUnary, acceptPrefixed, prefixOperators, hprimary]
  have hassignment : ∀ fuel, parseAssignment fuel (symbol ")" :: rest) = none := by
    intro fuel
    cases fuel <;> simp [parseAssignment, hunary]
  cases fuel <;> simp [parseArguments, hassignment]

theorem accept_close_pieces {first : List Token × Node} {others : List (List Token × Node)}
    (hpieces : ∀ piece ∈ first :: others, AssignmentParses piece.1 piece.2) (rest : List Token) :
    accept ")" ([symbol ","].intercalate ((first :: others).map Prod.fst) ++ symbol ")" :: rest) =
      none := by
  rw [Option.eq_none_iff_forall_not_mem]
  intro more hmore
  have hparsed := @parseArguments_pieces _ _ hpieces rest _ le_rfl
  rw [eq_cons_of_accept hmore, parseArguments_close] at hparsed
  cases hparsed

theorem PrimaryParses.call {text : String} (htrue : text ≠ "true") (hfalse : text ≠ "false")
    (pieces : List (List Token × Node))
    (hpieces : ∀ piece ∈ pieces, AssignmentParses piece.1 piece.2) :
    PrimaryParses
      (word text :: symbol "(" :: [symbol ","].intercalate (pieces.map Prod.fst) ++ [symbol ")"])
      (.call text (pieces.map Prod.snd)) where
  noOperator rest := rfl
  parses {rest fuel} _ hfuel := by
    simp only [List.length_append, List.length_cons, List.length_nil] at hfuel
    obtain ⟨fuel, rfl⟩ := Nat.exists_eq_succ_of_ne_zero (n := fuel) (by omega)
    rw [List.append_assoc, List.cons_append, List.cons_append, parsePrimary, if_neg htrue,
      if_neg hfalse, accept_self, List.singleton_append]
    cases pieces with
    | nil => simp
    | cons first others =>
        simp only
        rw [accept_close_pieces hpieces, parseArguments_pieces hpieces (by omega)]
        rfl

/-! ## Completeness -/

/-- What the parser does with tokens that stand for a tree at a level of some level. -/
structure Parses (level : ℕ) (tokens : List Token) (node : Node) : Prop where
  primary : 15 ≤ level → PrimaryParses tokens node
  postfixed : 14 ≤ level → PostfixParses tokens node
  unary : 13 ≤ level → UnaryParses tokens node
  binary : ∀ {lower : ℕ}, 2 ≤ lower → lower ≤ 12 → lower ≤ level → BinaryParses lower tokens node
  assignment : AssignmentParses tokens node

namespace Parses

theorem mono {level higher : ℕ} {tokens : List Token} {node : Node}
    (hparses : Parses higher tokens node) (hle : level ≤ higher) : Parses level tokens node where
  primary h := hparses.primary (h.trans hle)
  postfixed h := hparses.postfixed (h.trans hle)
  unary h := hparses.unary (h.trans hle)
  binary hlow hhigh h := hparses.binary hlow hhigh (h.trans hle)
  assignment := hparses.assignment

theorem of_assignment {level : ℕ} {tokens : List Token} {node : Node}
    (hparses : AssignmentParses tokens node) (hlevel : level ≤ 1) : Parses level tokens node where
  primary h := absurd h (by omega)
  postfixed h := absurd h (by omega)
  unary h := absurd h (by omega)
  binary hlow _ h := absurd (hlow.trans h) (by omega)
  assignment := hparses

theorem of_binary {level : ℕ} {tokens : List Token} {node : Node}
    (hparses : BinaryParses level tokens node) (hlow : 2 ≤ level) (hhigh : level ≤ 12) :
    Parses level tokens node where
  primary h := absurd h (by omega)
  postfixed h := absurd h (by omega)
  unary h := absurd h (by omega)
  binary _ _ h := hparses.mono h
  assignment := (hparses.mono hlow).assignment

theorem of_unary {tokens : List Token} {node : Node} (hparses : UnaryParses tokens node) :
    Parses 13 tokens node where
  primary h := absurd h (by omega)
  postfixed h := absurd h (by omega)
  unary _ := hparses
  binary _ hhigh _ := hparses.binary hhigh
  assignment := (hparses.binary (by omega)).assignment

theorem of_postfixed {tokens : List Token} {node : Node} (hparses : PostfixParses tokens node) :
    Parses 14 tokens node where
  primary h := absurd h (by omega)
  postfixed _ := hparses
  unary _ := hparses.unary
  binary _ hhigh _ := hparses.unary.binary hhigh
  assignment := (hparses.unary.binary (by omega)).assignment

theorem of_primary {tokens : List Token} {node : Node} (hparses : PrimaryParses tokens node) :
    Parses 15 tokens node where
  primary _ := hparses
  postfixed _ := hparses.postfixed
  unary _ := hparses.postfixed.unary
  binary _ hhigh _ := hparses.postfixed.unary.binary hhigh
  assignment := (hparses.postfixed.unary.binary (by omega)).assignment

theorem operand {level higher : ℕ} {tokens : List Token} {node : Node}
    (hparses : Parses higher tokens node) (hlow : 2 ≤ level) (hhigh : level ≤ 12)
    (hhigher : level < higher) : OperandParses level tokens node := by
  by_cases hunary : 13 ≤ higher
  · exact (hparses.unary hunary).operand hhigh
  · exact (hparses.binary (by omega) (by omega) le_rfl).operand hhigher

end Parses

/-- By induction on the derivation, with one lemma for each rule of the grammar. -/
theorem parses_of_derives {level : ℕ} {tokens : List Token} {node : Node}
    (hderives : Derives level tokens node) : Parses level tokens node := by
  induction hderives with
  | name htrue hfalse => exact Parses.of_primary (PrimaryParses.name htrue hfalse)
  | bool value => exact Parses.of_primary (PrimaryParses.bool value)
  | integer value => exact Parses.of_primary (PrimaryParses.integer value)
  | unsigned value => exact Parses.of_primary (PrimaryParses.unsigned value)
  | decimal value => exact Parses.of_primary (PrimaryParses.decimal value)
  | parentheses _ ih => exact Parses.of_primary (PrimaryParses.parentheses ih.assignment)
  | call htrue hfalse pieces _ ih =>
      exact Parses.of_primary
        (PrimaryParses.call htrue hfalse pieces fun piece hpiece => (ih piece hpiece).assignment)
  | member field _ ih => exact Parses.of_postfixed ((ih.postfixed le_rfl).member field)
  | index _ _ ih hposition =>
      exact Parses.of_postfixed ((ih.postfixed le_rfl).index hposition.assignment)
  | unary hoperator _ ih => exact Parses.of_unary ((ih.unary le_rfl).unary hoperator)
  | binary hoperator hhigher _ _ hleft hright =>
      obtain ⟨hlow, hhigh⟩ := operatorLevel_bounds hoperator
      exact Parses.of_binary (BinaryParses.binary hoperator (hleft.binary hlow hhigh le_rfl)
        (hright.operand hlow hhigh hhigher)) hlow hhigh
  | conditional _ _ _ hcondition htrue hfalse =>
      exact Parses.of_assignment (AssignmentParses.conditional
        (hcondition.binary le_rfl (by omega) le_rfl) htrue.assignment hfalse.assignment) le_rfl
  | assignment _ _ htarget hvalue =>
      exact Parses.of_assignment
        (AssignmentParses.assignment (htarget.unary le_rfl) hvalue.assignment) (Nat.zero_le 1)
  | lower hle _ ih => exact ih.mono hle

/-- The parser finds every tree that the grammar derives from a list of tokens. -/
theorem parse_of_derives {tokens : List Token} {node : Node}
    (hderives : Derives 0 tokens node) : parse tokens = some node := by
  have hparsed := (parses_of_derives hderives).assignment (MayFollow.nil 1)
    (Nat.add_le_add_left (by norm_num : 2 ≤ 4) (4 * tokens.length))
  rw [List.append_nil] at hparsed
  unfold parse
  rw [hparsed]

end Parser

/-- The grammar is not ambiguous. -/
theorem Derives.unique {tokens : List Token} {first second : Node}
    (hfirst : Derives 0 tokens first) (hsecond : Derives 0 tokens second) :
    first = second :=
  Option.some.inj
    ((Parser.parse_of_derives hfirst).symm.trans (Parser.parse_of_derives hsecond))

end NoiseShader
