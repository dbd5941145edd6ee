/-!
# Bytes and blank space of text

Patterns are searched, sources are marked and file chunks are named byte by byte.
The blank characters are those with the Unicode property White_Space.
-/

namespace NoiseShader.Text

/-- The bytes of a text in UTF-8. -/
def bytes (text : String) : List UInt8 := text.toList.flatMap String.utf8EncodeChar

theorem bytes_append (text other : String) : bytes (text ++ other) = bytes text ++ bytes other := by
  rw [bytes, String.toList_append, List.flatMap_append]
  rfl

/-- Characters of seven bits are one byte each. -/
theorem bytes_eq_map {text : String} (hseven : ∀ c ∈ text.toList, c.toNat ≤ 127) :
    bytes text = text.toList.map fun c => UInt8.ofNat c.toNat := by
  have hbyte : ∀ c ∈ text.toList, String.utf8EncodeChar c = [UInt8.ofNat c.toNat] := by
    intro c hc
    unfold String.utf8EncodeChar
    exact if_pos (hseven c hc)
  rw [bytes, List.flatMap_def, List.map_congr_left hbyte, ← List.flatMap_def, List.map_eq_flatMap]

def isBlank (c : Char) : Bool :=
  let code := c.toNat
  (0x09 ≤ code && code ≤ 0x0d) || code == 0x20 || code == 0x85 || code == 0xa0 ||
    code == 0x1680 || (0x2000 ≤ code && code ≤ 0x200a) || code == 0x2028 || code == 0x2029 ||
    code == 0x202f || code == 0x205f || code == 0x3000

/-- The text without the blank characters at its two ends. -/
def trimBlank (s : String) : String :=
  String.ofList (((s.toList.dropWhile isBlank).reverse.dropWhile isBlank).reverse)

/-- A text is another one with blank characters around it, and the other neither begins nor ends
with a blank character. -/
structure Trims (text core : String) : Prop where
  around : ∃ before after, text.toList = before ++ core.toList ++ after ∧
    ∀ c ∈ before ++ after, isBlank c = true
  first : ∀ c, core.toList.head? = some c → isBlank c = false
  last : ∀ c, core.toList.getLast? = some c → isBlank c = false

theorem not_isBlank_of_head?_dropWhile {text : List Char} {c : Char}
    (hfirst : (text.dropWhile isBlank).head? = some c) : isBlank c = false := by
  have hnot := List.head?_dropWhile_not isBlank text
  rw [hfirst] at hnot
  exact hnot

theorem trims_trimBlank (text : String) : Trims text (trimBlank text) := by
  have hfront := (List.takeWhile_append_dropWhile (p := isBlank) (l := text.toList)).symm
  generalize hopened : text.toList.dropWhile isBlank = opened at hfront
  have hback := (List.takeWhile_append_dropWhile (p := isBlank) (l := opened.reverse)).symm
  have hcore : (trimBlank text).toList = (opened.reverse.dropWhile isBlank).reverse := by
    rw [trimBlank, String.toList_ofList, hopened]
  have hclosed : opened =
      (trimBlank text).toList ++ (opened.reverse.takeWhile isBlank).reverse := by
    rw [hcore, ← List.reverse_append, ← hback, List.reverse_reverse]
  constructor
  · refine ⟨text.toList.takeWhile isBlank, (opened.reverse.takeWhile isBlank).reverse, ?_, ?_⟩
    · rw [List.append_assoc, ← hclosed, ← hfront]
    · intro c hc
      rw [List.mem_append, List.mem_reverse] at hc
      exact hc.elim (List.all_eq_true.mp List.all_takeWhile c)
        (List.all_eq_true.mp List.all_takeWhile c)
  · intro c hc
    refine @not_isBlank_of_head?_dropWhile text.toList c ?_
    rw [hopened, hclosed, List.head?_append, hc]
    rfl
  · intro c hc
    rw [hcore, List.getLast?_reverse] at hc
    exact not_isBlank_of_head?_dropWhile hc

end NoiseShader.Text
