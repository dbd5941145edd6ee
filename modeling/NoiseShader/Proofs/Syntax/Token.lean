import NoiseShader.Proofs.Number.Reading
import Mathlib.Tactic

/-!
# Tokens of the shading language

A text is cut into tokens from the left, each as long as possible: words,
numerals and symbols, with blanks between them skipped.  Numerals in other
notations than decimal digits are refused, and so is a numeral that runs into a
word.

`Token.Reads` says how a piece of text is cut when another text follows it.
Pieces are put together with `Reads.append`; what each kind of piece needs is a
condition on the first character that follows.
-/

namespace NoiseShader

open Number (readDecimal PointNumeral natText)

/-- A token of the shading language.  A decimal stands for the nearest single precision number. -/
inductive Token where
  | word (text : String)
  | integer (value : ℕ)
  | unsigned (value : ℕ)
  | decimal (value : Float32)
  | symbol (text : String)
deriving DecidableEq

namespace Token

def isBlank (c : Char) : Bool := c == ' ' || c == '\t' || c == '\n'

def isWordStart (c : Char) : Bool := c.isAlpha || c == '_'

def isWordChar (c : Char) : Bool := c.isAlphanum || c == '_'

/-- The symbols of the language, longer ones before shorter ones.  The openings of comments are
among them, so that a comment is never taken for two operators. -/
def symbols : List String :=
  ["<<=", ">>=", "++", "--", "+=", "-=", "*=", "/=", "%=", "&=", "^=", "|=", "<<", ">>", "<=", ">=",
    "==", "!=", "&&", "^^", "||", "//", "/*", "(", ")", "[", "]", "\x7b", "\x7d", ".", ",", ":",
    ";", "?", "=", "!", "~", "+", "-", "*", "/", "%", "<", ">", "&", "^", "|"]

/-- The longest symbol that a text starts with, and the text after it. -/
def splitSymbol (text : List Char) : Option (Token × List Char) :=
  (symbols.find? (·.toList.isPrefixOf text)).map fun found =>
    (symbol found, text.drop found.toList.length)

def splitWord (text : List Char) : Token × List Char :=
  (word (String.ofList (text.takeWhile isWordChar)), text.dropWhile isWordChar)

/-- The value of a whole numeral.  A zero in front of more digits would make it octal, which is
refused. -/
def wholeNumeral (digits : List Char) : Option ℕ :=
  if digits.head? = some '0' ∧ digits ≠ ['0'] then none else some (Nat.ofDigitChars 10 digits 0)

/-- The rest of a numeral after its first digits: a point and more digits, the mark of unsigned
numbers, or nothing. -/
def finishNumeral (whole : List Char) : List Char → Option (Token × List Char)
  | '.' :: rest =>
    let fraction := rest.takeWhile Char.isDigit
    some (decimal (readDecimal (Nat.ofDigitChars 10 (whole ++ fraction) 0) fraction.length),
      rest.dropWhile Char.isDigit)
  | 'u' :: rest => (wholeNumeral whole).map fun value => (unsigned value, rest)
  | rest => (wholeNumeral whole).map fun value => (integer value, rest)

def splitNumeral (text : List Char) : Option (Token × List Char) :=
  finishNumeral (text.takeWhile Char.isDigit) (text.dropWhile Char.isDigit)

def startsWithWordChar (text : List Char) : Bool := text.head?.any isWordChar

def startsNumeral : List Char → Bool
  | [] => false
  | c :: rest => c.isDigit || (c == '.' && rest.head?.any Char.isDigit)

/-- The first token of a text that does not start with a blank, and the text after it.  Nothing
that could belong to a word stands right after a numeral. -/
def splitToken (text : List Char) : Option (Token × List Char) :=
  if text.head?.any isWordStart then some (splitWord text)
  else if startsNumeral text then
    (splitNumeral text).filter fun found => !startsWithWordChar found.2
  else splitSymbol text

theorem isWordChar_of_isWordStart {c : Char} (hc : isWordStart c = true) : isWordChar c = true := by
  unfold isWordStart at hc
  unfold isWordChar Char.isAlphanum
  rcases Bool.or_eq_true _ _ ▸ hc with halpha | hbar
  · rw [halpha]
    rfl
  · rw [hbar, Bool.or_true]

theorem toList_ne_nil_of_mem_symbols {s : String} (hs : s ∈ symbols) : s.toList ≠ [] := by
  have hall : ∀ s ∈ symbols, s.toList ≠ [] := by decide
  exact hall s hs

theorem splitSymbol_length_lt {text rest : List Char} {token : Token}
    (hsplit : splitSymbol text = some (token, rest)) : rest.length < text.length := by
  unfold splitSymbol at hsplit
  obtain ⟨found, hfind, heq⟩ := Option.map_eq_some_iff.mp hsplit
  have hne := toList_ne_nil_of_mem_symbols (List.mem_of_find?_eq_some hfind)
  have hstarts := List.find?_some hfind
  have hle : found.toList.length ≤ text.length :=
    (List.isPrefixOf_iff_prefix.mp hstarts).length_le
  have hpos : 0 < found.toList.length := List.length_pos_of_ne_nil hne
  simp only [Prod.mk.injEq] at heq
  rw [← heq.2, List.length_drop]
  omega

theorem finishNumeral_length_le {whole text rest : List Char} {token : Token}
    (hfinish : finishNumeral whole text = some (token, rest)) : rest.length ≤ text.length := by
  unfold finishNumeral at hfinish
  split at hfinish
  next more =>
    simp only [Option.some.injEq, Prod.mk.injEq] at hfinish
    rw [← hfinish.2]
    exact ((List.dropWhile_suffix _).length_le).trans (by simp)
  next more =>
    obtain ⟨value, -, heq⟩ := Option.map_eq_some_iff.mp hfinish
    simp only [Prod.mk.injEq] at heq
    rw [← heq.2]
    simp
  next =>
    obtain ⟨value, -, heq⟩ := Option.map_eq_some_iff.mp hfinish
    simp only [Prod.mk.injEq] at heq
    rw [← heq.2]

/-- A numeral has a digit in front, or a point. -/
theorem splitNumeral_length_lt {text rest : List Char} {token : Token}
    (hstart : startsNumeral text = true) (hsplit : splitNumeral text = some (token, rest)) :
    rest.length < text.length := by
  cases text with
  | nil => simp [startsNumeral] at hstart
  | cons c tail =>
      unfold splitNumeral at hsplit
      by_cases hdigit : c.isDigit = true
      · have hle := finishNumeral_length_le hsplit
        rw [List.dropWhile_cons_of_pos hdigit] at hle
        have htail : (tail.dropWhile Char.isDigit).length ≤ tail.length :=
          (List.dropWhile_suffix _).length_le
        rw [List.length_cons]
        omega
      · simp only [startsNumeral, hdigit, Bool.false_or, Bool.and_eq_true, beq_iff_eq] at hstart
        rw [List.dropWhile_cons_of_neg hdigit, hstart.1] at hsplit
        simp only [finishNumeral, Option.some.injEq, Prod.mk.injEq] at hsplit
        rw [← hsplit.2, List.length_cons]
        exact Nat.lt_succ_of_le (List.dropWhile_suffix _).length_le

theorem splitWord_length_lt {c : Char} {text : List Char} (hc : isWordStart c = true) :
    (splitWord (c :: text)).2.length < (c :: text).length := by
  unfold splitWord
  rw [List.dropWhile_cons_of_pos (isWordChar_of_isWordStart hc), List.length_cons]
  exact Nat.lt_succ_of_le (List.dropWhile_suffix _).length_le

theorem splitToken_length_lt {text rest : List Char} {token : Token}
    (hsplit : splitToken text = some (token, rest)) : rest.length < text.length := by
  unfold splitToken at hsplit
  split at hsplit
  next hword =>
    cases text with
    | nil => simp at hword
    | cons c tail =>
        have hlt := @splitWord_length_lt c tail (by simpa using hword)
        rw [Option.some.inj hsplit] at hlt
        exact hlt
  next =>
    split at hsplit
    next hstart =>
      exact splitNumeral_length_lt hstart (Option.eq_some_of_filter_eq_some hsplit)
    next => exact splitSymbol_length_lt hsplit

/-- The tokens of a text, none if it has a part that is no token. -/
def scan : List Char → Option (List Token)
  | [] => some []
  | c :: rest =>
    if isBlank c then scan rest
    else
      match _ : splitToken (c :: rest) with
      | none => none
      | some (token, remaining) => (scan remaining).map (token :: ·)
termination_by text => text.length
decreasing_by
  · simp
  · exact splitToken_length_lt ‹_›

theorem scan_blank {c : Char} (hc : isBlank c = true) (rest : List Char) :
    scan (c :: rest) = scan rest := by
  rw [scan, if_pos hc]

theorem scan_of_splitToken {text rest : List Char} {token : Token}
    (hblank : text.head?.any isBlank = false) (hsplit : splitToken text = some (token, rest)) :
    scan text = (scan rest).map (token :: ·) := by
  cases text with
  | nil => simp [splitToken, startsNumeral, splitSymbol, symbols] at hsplit
  | cons c tail =>
      have hc : ¬isBlank c = true := by simpa using hblank
      rw [scan, if_neg hc]
      split
      next hnone => rw [hsplit] at hnone; cases hnone
      next found remaining hsome =>
        rw [hsplit, Option.some.injEq, Prod.mk.injEq] at hsome
        rw [hsome.1, hsome.2]

/-- A text reads as some tokens in front of another text: together they are these tokens and
those of the other. -/
def Reads (text : List Char) (tokens : List Token) (rest : List Char) : Prop :=
  scan (text ++ rest) = (scan rest).map (tokens ++ ·)

namespace Reads

theorem nil (rest : List Char) : Reads [] [] rest := by
  simp [Reads]

theorem append {first second rest : List Char} {front back : List Token}
    (hfirst : Reads first front (second ++ rest)) (hsecond : Reads second back rest) :
    Reads (first ++ second) (front ++ back) rest := by
  unfold Reads at *
  rw [List.append_assoc, hfirst, hsecond, Option.map_map]
  congr 1
  funext tokens
  simp

theorem blank {text rest : List Char} {tokens : List Token} (hreads : Reads text tokens rest) :
    Reads (' ' :: text) tokens rest := by
  unfold Reads at *
  rw [List.cons_append, scan_blank (by decide), hreads]

theorem of_splitToken {text rest : List Char} {token : Token}
    (hblank : (text ++ rest).head?.any isBlank = false)
    (hsplit : splitToken (text ++ rest) = some (token, rest)) : Reads text [token] rest := by
  unfold Reads
  rw [scan_of_splitToken hblank hsplit]
  rfl

end Reads

/-! ## Words -/

theorem takeWhile_eq_nil_of_head {p : Char → Bool} {rest : List Char}
    (hstop : rest.head?.any p = false) : rest.takeWhile p = [] := by
  cases rest with
  | nil => rfl
  | cons c tail => exact List.takeWhile_cons_of_neg (by simpa using hstop)

theorem dropWhile_eq_self_of_head {p : Char → Bool} {rest : List Char}
    (hstop : rest.head?.any p = false) : rest.dropWhile p = rest := by
  cases rest with
  | nil => rfl
  | cons c tail => exact List.dropWhile_cons_of_neg (by simpa using hstop)

theorem takeWhile_run {p : Char → Bool} {run rest : List Char} (hrun : ∀ c ∈ run, p c = true)
    (hstop : rest.head?.any p = false) : (run ++ rest).takeWhile p = run := by
  rw [List.takeWhile_append_of_pos hrun, takeWhile_eq_nil_of_head hstop, List.append_nil]

theorem dropWhile_run {p : Char → Bool} {run rest : List Char} (hrun : ∀ c ∈ run, p c = true)
    (hstop : rest.head?.any p = false) : (run ++ rest).dropWhile p = rest := by
  rw [List.dropWhile_append_of_pos hrun, dropWhile_eq_self_of_head hstop]

theorem isBlank_of_isWordChar {c : Char} (hc : isWordChar c = true) : isBlank c = false := by
  by_contra hblank
  simp only [isBlank, Bool.or_eq_true, beq_iff_eq, Bool.not_eq_false] at hblank
  rcases hblank with (rfl | rfl) | rfl
  · exact absurd hc (by decide)
  · exact absurd hc (by decide)
  · exact absurd hc (by decide)

/-- A text that can stand as a name: a letter or a bar, then letters, bars and digits. -/
def isName (name : String) : Bool :=
  name.toList.head?.any isWordStart && name.toList.all isWordChar

theorem exists_cons_of_isName {name : String} (hname : isName name = true) :
    ∃ c tail, name.toList = c :: tail ∧ isWordStart c = true := by
  obtain ⟨hstart, -⟩ := Bool.and_eq_true_iff.mp hname
  cases htext : name.toList with
  | nil => simp [htext] at hstart
  | cons c tail => exact ⟨c, tail, rfl, by simpa [htext] using hstart⟩

theorem reads_word {name : String} (hname : isName name = true) {rest : List Char}
    (hstop : startsWithWordChar rest = false) : Reads name.toList [word name] rest := by
  obtain ⟨-, hchars⟩ := Bool.and_eq_true_iff.mp hname
  have hrun : ∀ c ∈ name.toList, isWordChar c = true := List.all_eq_true.mp hchars
  obtain ⟨c, tail, htext, hfirst⟩ := exists_cons_of_isName hname
  have hhead : (name.toList ++ rest).head? = some c := by simp [htext]
  apply Reads.of_splitToken
  · rw [hhead]
    exact isBlank_of_isWordChar (isWordChar_of_isWordStart hfirst)
  · unfold splitToken splitWord
    rw [hhead, if_pos (by simpa using hfirst), takeWhile_run hrun hstop, dropWhile_run hrun hstop,
      String.ofList_toList]

/-! ## Numerals -/

theorem isWordChar_of_isDigit {c : Char} (hc : c.isDigit = true) : isWordChar c = true := by
  unfold isWordChar Char.isAlphanum
  rw [hc]
  simp

theorem not_isWordStart_of_isDigit {c : Char} (hc : c.isDigit = true) : isWordStart c = false := by
  have hbar : c ≠ '_' := by
    rintro rfl
    exact absurd hc (by decide)
  simp only [Char.isDigit, Bool.and_eq_true, decide_eq_true_eq] at hc
  have hhigh : c.val.toNat ≤ 57 := UInt32.le_iff_toNat_le.mp hc.2
  have hupper : c.isUpper = false := by
    unfold Char.isUpper
    simp only [decide_eq_false_iff_not, ge_iff_le, UInt32.le_iff_toNat_le]
    rintro ⟨hle, -⟩
    change 65 ≤ c.val.toNat at hle
    omega
  have hlower : c.isLower = false := by
    unfold Char.isLower
    simp only [Bool.and_eq_false_iff, decide_eq_false_iff_not, ge_iff_le, UInt32.le_iff_toNat_le]
    exact Or.inl (by change ¬97 ≤ c.val.toNat; omega)
  unfold isWordStart Char.isAlpha
  simp [hupper, hlower, hbar]

theorem not_isDigit_of_isName {name : String} (hname : isName name = true) (rest : List Char) :
    (name.toList ++ rest).head?.any Char.isDigit = false := by
  obtain ⟨c, tail, htext, hfirst⟩ := exists_cons_of_isName hname
  rw [htext, List.cons_append, List.head?_cons, Option.any_some, Bool.eq_false_iff]
  intro hdigit
  rw [not_isWordStart_of_isDigit hdigit] at hfirst
  cases hfirst

theorem head_toDigits (n : ℕ) : (Nat.toDigits 10 n).head? = some '0' → n = 0 := by
  induction n using Nat.strong_induction_on with
  | _ n ih =>
      intro hhead
      by_cases hsmall : n < 10
      · rw [Nat.toDigits_of_lt_base hsmall] at hhead
        exact Nat.digitChar_eq_zero.mp (by simpa using hhead)
      · rw [Nat.toDigits_of_base_le (by norm_num) (by omega), List.head?_append_of_ne_nil _
          Nat.toDigits_ne_nil] at hhead
        have := ih (n / 10) (by omega) hhead
        omega

theorem wholeNumeral_toDigits (n : ℕ) : wholeNumeral (Nat.toDigits 10 n) = some n := by
  unfold wholeNumeral
  rw [if_neg, Nat.ofDigitChars_ten_toDigits]
  rintro ⟨hhead, hne⟩
  apply hne
  rw [head_toDigits n hhead, Nat.toDigits_zero]

theorem head_any_of_stop {rest : List Char} (hend : startsWithWordChar rest = false) :
    rest.head?.any Char.isDigit = false := by
  cases rest with
  | nil => rfl
  | cons c tail =>
      by_contra hdigit
      simp only [List.head?_cons, Option.any_some, Bool.not_eq_false] at hdigit
      simp [startsWithWordChar, isWordChar_of_isDigit hdigit] at hend

theorem reads_numeral {digits tail rest : List Char} {token : Token} (hne : digits ≠ [])
    (hdigits : ∀ c ∈ digits, c.isDigit = true)
    (hstop : (tail ++ rest).head?.any Char.isDigit = false)
    (hfinish : finishNumeral digits (tail ++ rest) = some (token, rest))
    (hend : startsWithWordChar rest = false) : Reads (digits ++ tail) [token] rest := by
  obtain ⟨c, more, htext⟩ := List.exists_cons_of_ne_nil hne
  have hc : c.isDigit = true := hdigits c (by simp [htext])
  have hassoc : digits ++ tail ++ rest = digits ++ (tail ++ rest) := List.append_assoc ..
  have hhead : (digits ++ (tail ++ rest)).head? = some c := by simp [htext]
  have hstart : startsNumeral (digits ++ (tail ++ rest)) = true := by
    simp [htext, startsNumeral, hc]
  apply Reads.of_splitToken
  · rw [hassoc, hhead]
    exact isBlank_of_isWordChar (isWordChar_of_isDigit hc)
  · unfold splitToken splitNumeral
    rw [hassoc, hhead, if_neg (by simpa using not_isWordStart_of_isDigit hc), if_pos hstart,
      takeWhile_run hdigits hstop, dropWhile_run hdigits hstop, hfinish]
    simp [hend]

theorem reads_natText (n : ℕ) {rest : List Char} (hend : startsWithWordChar rest = false)
    (hpoint : rest.head? ≠ some '.') : Reads (natText n).toList [integer n] rest := by
  have hfinish : finishNumeral (Nat.toDigits 10 n) rest = some (integer n, rest) := by
    unfold finishNumeral
    split
    next => simp at hpoint
    next => exact absurd hend (by simp [startsWithWordChar, isWordChar])
    next => rw [wholeNumeral_toDigits, Option.map_some]
  have hreads := @reads_numeral (Nat.toDigits 10 n) [] rest (integer n) Nat.toDigits_ne_nil
    (fun c hc => Number.isDigit_toDigits hc) (head_any_of_stop hend) hfinish hend
  rw [List.append_nil] at hreads
  rw [natText, String.toList_ofList]
  exact hreads

theorem reads_unsigned (n : ℕ) {rest : List Char} (hend : startsWithWordChar rest = false) :
    Reads (natText n ++ "u").toList [unsigned n] rest := by
  have hfinish : finishNumeral (Nat.toDigits 10 n) (['u'] ++ rest) = some (unsigned n, rest) := by
    simp only [List.cons_append, List.nil_append, finishNumeral, wholeNumeral_toDigits,
      Option.map_some]
  rw [String.toList_append, natText, String.toList_ofList]
  exact reads_numeral Nat.toDigits_ne_nil (fun c hc => Number.isDigit_toDigits hc) rfl hfinish hend

theorem reads_pointNumeral (numeral : PointNumeral) {rest : List Char}
    (hend : startsWithWordChar rest = false) :
    Reads numeral.text [decimal numeral.value] rest := by
  have hstop := head_any_of_stop hend
  have hfinish : finishNumeral numeral.whole ('.' :: numeral.fraction ++ rest) =
      some (decimal numeral.value, rest) := by
    simp only [List.cons_append, finishNumeral, takeWhile_run numeral.fraction_digits hstop,
      dropWhile_run numeral.fraction_digits hstop]
    rfl
  exact reads_numeral numeral.whole_ne numeral.whole_digits rfl hfinish hend

/-! ## Symbols -/

/-- Characters that a symbol can have after its first. -/
def joiningChars : List Char := ['+', '-', '=', '&', '^', '|', '<', '>', '/', '*']

/-- Whether a character can continue a symbol. -/
def Joins (s : String) (c : Char) : Prop := ∃ t ∈ symbols, s.toList ++ [c] <+: t.toList

theorem mem_joiningChars_of_joins {s : String} {c : Char} (hs : s.toList ≠ [])
    (hjoins : Joins s c) : c ∈ joiningChars := by
  have hall : ∀ t ∈ symbols, t.toList.tail.all joiningChars.contains = true := by decide
  obtain ⟨t, ht, more, hmore⟩ := hjoins
  obtain ⟨first, others, htext⟩ := List.exists_cons_of_ne_nil hs
  have hmem : c ∈ t.toList.tail := by
    rw [← hmore, htext]
    simp
  exact List.contains_iff_mem.mp (List.all_eq_true.mp (hall t ht) c hmem)

theorem not_mem_joiningChars_of_isWordChar {c : Char} (hc : isWordChar c = true) :
    c ∉ joiningChars := by
  have hall : (joiningChars.all fun c => !isWordChar c) = true := by decide
  intro hmem
  have hnot := List.all_eq_true.mp hall c hmem
  simp [hc] at hnot

theorem not_joins_of_bracket {s : String} (hs : s ∈ ["(", ")", "[", "]", ".", ","]) (c : Char) :
    ¬Joins s c := by
  rintro ⟨t, ht, hstarts⟩
  have hall : ∀ s ∈ ["(", ")", "[", "]", ".", ","], ∀ t ∈ symbols, s.toList <+: t.toList →
      t.toList.length ≤ s.toList.length := by decide
  have hle := hall s hs t ht ((List.prefix_append _ _).trans hstarts)
  have hlength := hstarts.length_le
  simp at hlength hle
  omega

/-- Earlier symbols never start later ones, so the first that starts the text is the longest. -/
theorem splitSymbol_append {s : String} (hs : s ∈ symbols) {rest : List Char}
    (hstop : ∀ c ∈ rest.head?, ¬Joins s c) :
    splitSymbol (s.toList ++ rest) = some (symbol s, rest) := by
  have hordered : symbols.Pairwise fun s t => ¬s.toList <+: t.toList := by decide
  have hfind : symbols.find? (·.toList.isPrefixOf (s.toList ++ rest)) = some s := by
    rw [List.find?_eq_some_iff_append]
    obtain ⟨before, after, hsplit⟩ := List.append_of_mem hs
    refine ⟨by simp, before, after, hsplit, ?_⟩
    intro t ht
    have htSymbol : t ∈ symbols := by rw [hsplit]; exact List.mem_append_left _ ht
    have hnot : ¬t.toList <+: s.toList := by
      rw [hsplit, List.pairwise_append] at hordered
      exact hordered.2.2 t ht s (by simp)
    simp only [Bool.not_eq_true', Bool.eq_false_iff, ne_eq, List.isPrefixOf_iff_prefix]
    intro hstarts
    rcases List.prefix_or_prefix_of_prefix hstarts (List.prefix_append s.toList rest) with h | h
    · exact hnot h
    · obtain ⟨more, hmore⟩ := h
      cases more with
      | nil =>
          rw [List.append_nil] at hmore
          exact hnot (by rw [hmore])
      | cons c others =>
          rw [← hmore, List.prefix_append_right_inj] at hstarts
          obtain ⟨tail, htail⟩ := hstarts
          refine hstop c (by rw [← htail]; simp) ⟨t, htSymbol, ?_⟩
          rw [← hmore]
          exact ⟨others, by simp⟩
  unfold splitSymbol
  rw [hfind]
  simp

theorem reads_symbol {s : String} (hs : s ∈ symbols) {rest : List Char}
    (hpoint : s = "." → rest.head?.any Char.isDigit = false)
    (hstop : ∀ c ∈ rest.head?, ¬Joins s c) : Reads s.toList [symbol s] rest := by
  have hplain : ∀ s ∈ symbols, s.toList.head?.all (fun c => !isBlank c && !isWordStart c &&
      !c.isDigit && (c != '.' || s == ".")) = true := by decide
  obtain ⟨c, tail, htext⟩ := List.exists_cons_of_ne_nil (toList_ne_nil_of_mem_symbols hs)
  have hhead : (s.toList ++ rest).head? = some c := by simp [htext]
  have hfirst := hplain s hs
  simp only [htext, List.head?_cons, Option.all_some, Bool.and_eq_true, Bool.not_eq_true',
    Bool.or_eq_true, bne_iff_ne, beq_iff_eq] at hfirst
  obtain ⟨⟨⟨hblank, hword⟩, hdigit⟩, hdot⟩ := hfirst
  have hnumeral : startsNumeral (s.toList ++ rest) = false := by
    by_cases hc : c = '.'
    · have hs := hdot.resolve_left (not_not.mpr hc)
      subst hs
      have hrest := hpoint rfl
      simpa [startsNumeral] using hrest
    · simp [htext, startsNumeral, hdigit, hc]
  apply Reads.of_splitToken
  · rw [hhead]
    exact hblank
  · unfold splitToken
    rw [hhead, if_neg (by simp [hword]), if_neg (by simp [hnumeral]), splitSymbol_append hs hstop]

end Token
end NoiseShader
