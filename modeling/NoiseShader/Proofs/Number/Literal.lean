import NoiseShader.Proofs.Number.Fewest
import NoiseShader.Proofs.Number.Nearest
import NoiseShader.Proofs.Number.Reading
import Mathlib.Data.List.DropRight
import Mathlib.Tactic

/-!
# Number literals

A literal is read by rounding: a numeral, with or without a sign, stands for the
nearest single precision number, and three divisions by zero stand for the numbers
without a numeral.  Every number is read back from its literal, and the numeral in
the literal of a finite number has the fewest significant digits of all numerals
that are read as this number.

The characters of literals are few, and each of them is one byte.  Bytes of numbers
are cut at their separators into the literals of the numbers, if the separator is
none of these characters.
-/

namespace NoiseShader.Number

/-! ## Significant digits -/

def isZeroDigit (c : Char) : Bool := c == '0'

/-- Digits without zeros in front and at the end. -/
def significantDigits (digits : List Char) : List Char :=
  (digits.dropWhile isZeroDigit).rdropWhile isZeroDigit

section Digits

variable {digits : List Char}

theorem digit_bounds {c : Char} (hdigit : c.isDigit = true) :
    '0'.toNat ≤ c.toNat ∧ c.toNat - '0'.toNat < 10 := by
  simp only [Char.isDigit, Bool.and_eq_true, decide_eq_true_eq] at hdigit
  obtain ⟨hlow, hhigh⟩ := hdigit
  have hlowNat : '0'.toNat ≤ c.toNat := hlow
  have hhighNat : c.toNat ≤ '9'.toNat := hhigh
  refine ⟨hlowNat, ?_⟩
  have hzero : '0'.toNat = 48 := rfl
  have hnine : '9'.toNat = 57 := rfl
  omega

theorem digit_pos {c : Char} (hdigit : c.isDigit = true) (hnonzero : ¬ isZeroDigit c) :
    0 < c.toNat - '0'.toNat := by
  have hne : c.toNat ≠ '0'.toNat := by
    intro heq
    apply hnonzero
    rw [isZeroDigit, Char.toNat_inj.mp heq]
    rfl
  have hlow := (digit_bounds hdigit).1
  omega

theorem ofDigitChars_concat (front : List Char) (last : Char) :
    Nat.ofDigitChars 10 (front ++ [last]) 0 =
      10 * Nat.ofDigitChars 10 front 0 + (last.toNat - '0'.toNat) := by
  rw [Nat.ofDigitChars_append, Nat.ofDigitChars_cons, Nat.ofDigitChars_nil]

theorem ofDigitChars_lt (hdigits : ∀ c ∈ digits, c.isDigit = true) :
    Nat.ofDigitChars 10 digits 0 < 10 ^ digits.length := by
  induction digits using List.reverseRecOn with
  | nil => simp
  | append_singleton front last ih =>
      have hfront := ih fun c hc => hdigits c (List.mem_append_left _ hc)
      have hlast := (digit_bounds (hdigits last (by simp))).2
      rw [ofDigitChars_concat, List.length_append, List.length_singleton, Nat.pow_succ]
      omega

theorem eq_replicate_of_isZeroDigit {zeros : List Char} (hzeros : ∀ c ∈ zeros, isZeroDigit c) :
    zeros = List.replicate zeros.length '0' :=
  List.eq_replicate_of_mem fun c hc => beq_iff_eq.mp (hzeros c hc)

/-- The digits that are left out are zeros. -/
theorem exists_zeros (digits : List Char) :
    ∃ front back, digits =
      List.replicate front '0' ++ significantDigits digits ++ List.replicate back '0' := by
  have hfront := eq_replicate_of_isZeroDigit fun c (hc : c ∈ digits.takeWhile isZeroDigit) =>
    List.mem_takeWhile_imp hc
  have hback := eq_replicate_of_isZeroDigit
    fun c (hc : c ∈ (digits.dropWhile isZeroDigit).rtakeWhile isZeroDigit) =>
      List.mem_rtakeWhile_imp hc
  refine ⟨(digits.takeWhile isZeroDigit).length,
    ((digits.dropWhile isZeroDigit).rtakeWhile isZeroDigit).length, ?_⟩
  rw [← hfront, ← hback, List.append_assoc, significantDigits,
    List.rdropWhile_append_rtakeWhile, List.takeWhile_append_dropWhile]

theorem exists_ofDigitChars_eq (digits : List Char) :
    ∃ back, Nat.ofDigitChars 10 digits 0 =
      Nat.ofDigitChars 10 (significantDigits digits) 0 * 10 ^ back := by
  obtain ⟨front, back, hdigits⟩ := exists_zeros digits
  refine ⟨back, ?_⟩
  conv_lhs => rw [hdigits]
  rw [Nat.ofDigitChars_append, Nat.ofDigitChars_append, Nat.ofDigitChars_replicate_zero,
    Nat.ofDigitChars_replicate_zero, Nat.mul_zero, Nat.mul_comm]

theorem isDigit_significantDigits (hdigits : ∀ c ∈ digits, c.isDigit = true) :
    ∀ c ∈ significantDigits digits, c.isDigit = true := by
  obtain ⟨front, back, hsplit⟩ := exists_zeros digits
  intro c hc
  apply hdigits
  rw [hsplit]
  simp [hc]

theorem pow_le_ofDigitChars (hdigits : ∀ c ∈ digits, c.isDigit = true)
    (hsome : significantDigits digits ≠ []) :
    10 ^ ((significantDigits digits).length - 1) ≤
      Nat.ofDigitChars 10 (significantDigits digits) 0 := by
  have hall := isDigit_significantDigits hdigits
  obtain ⟨tail, htail⟩ := List.rdropWhile_prefix isZeroDigit (digits.dropWhile isZeroDigit)
  change significantDigits digits ++ tail = digits.dropWhile isZeroDigit at htail
  obtain ⟨first, rest, hcons⟩ := List.exists_cons_of_ne_nil hsome
  rw [hcons] at hall htail ⊢
  have hnonzero : ¬ isZeroDigit first := by
    have hhead := List.head?_dropWhile_not isZeroDigit digits
    rw [← htail] at hhead
    simpa using hhead
  have hfirst := digit_pos (hall first (by simp)) hnonzero
  rw [Nat.ofDigitChars_cons, Nat.ofDigitChars_eq_ofDigitChars_zero]
  simp only [List.length_cons, Nat.add_sub_cancel, Nat.mul_zero, Nat.zero_add]
  exact le_add_right (Nat.le_mul_of_pos_right _ hfirst)

theorem not_ten_dvd_ofDigitChars (hdigits : ∀ c ∈ digits, c.isDigit = true)
    (hsome : significantDigits digits ≠ []) :
    ¬ 10 ∣ Nat.ofDigitChars 10 (significantDigits digits) 0 := by
  have hlast := List.rdropWhile_last_not isZeroDigit (digits.dropWhile isZeroDigit) hsome
  have hdigit := isDigit_significantDigits hdigits _ (List.getLast_mem hsome)
  rw [← List.dropLast_append_getLast hsome, ofDigitChars_concat]
  have hpos := digit_pos hdigit hlast
  have hlt := (digit_bounds hdigit).2
  omega

end Digits

namespace PointNumeral

/-- The number of significant digits. -/
def significant (numeral : PointNumeral) : ℕ :=
  (significantDigits (numeral.whole ++ numeral.fraction)).length

theorem isDigit_digits (numeral : PointNumeral) :
    ∀ c ∈ numeral.whole ++ numeral.fraction, c.isDigit = true := by
  intro c hc
  exact (List.mem_append.mp hc).elim (numeral.whole_digits c) (numeral.fraction_digits c)

theorem exact_nonneg (numeral : PointNumeral) : 0 ≤ numeral.exact := by
  unfold exact
  positivity

/-- The value of a numeral as a whole number with as many digits as are significant, moved by a
power of ten. -/
theorem exists_significand (numeral : PointNumeral) :
    ∃ (point : ℕ) (power : ℤ), numeral.exact = point * 10 ^ power ∧
      point < 10 ^ numeral.significant ∧
      (0 < numeral.significant → 10 ^ (numeral.significant - 1) ≤ point ∧ ¬ 10 ∣ point) := by
  have hdigits := numeral.isDigit_digits
  obtain ⟨back, hvalue⟩ := exists_ofDigitChars_eq (numeral.whole ++ numeral.fraction)
  refine ⟨_, (back : ℤ) - numeral.fraction.length, ?_,
    ofDigitChars_lt (isDigit_significantDigits hdigits), fun hpos => ?_⟩
  · unfold exact
    rw [hvalue, zpow_sub₀ (by norm_num), zpow_natCast, zpow_natCast, mul_div_assoc']
    push_cast
    rfl
  · have hsome := List.ne_nil_of_length_pos hpos
    exact ⟨pow_le_ofDigitChars hdigits hsome, not_ten_dvd_ofDigitChars hdigits hsome⟩

/-- Of all numerals that round to a number, that of the shortest decimal has the fewest significant
digits. -/
theorem significant_le {numeral other : PointNumeral} {significand : ℕ} {exponent : ℤ}
    (hcanonical : Format.binary32.Canonical significand exponent) (hhigh : exponent ≤ 104)
    (hexact : numeral.exact = (Format.binary32.shortest significand exponent).significand *
      10 ^ (Format.binary32.shortest significand exponent).exponent)
    (hother : Format.binary32.RoundsTo significand exponent other.exact) :
    numeral.significant ≤ other.significant := by
  rcases Nat.eq_zero_or_pos numeral.significant with hnone | hsome
  · omega
  obtain ⟨point, power, hvalue, -, hdigits⟩ := numeral.exists_significand
  obtain ⟨hlong, hten⟩ := hdigits hsome
  obtain ⟨otherPoint, otherPower, hotherValue, hshort, -⟩ := other.exists_significand
  have hpos : 0 < significand := by
    by_contra hzero
    have hnothing : (point * 10 ^ power : ℚ) = 0 := by
      rw [← hvalue, hexact, Nat.eq_zero_of_not_pos hzero]
      simp [Format.shortest]
    rcases mul_eq_zero.mp hnothing with hpoint | hpower
    · exact hten (Nat.cast_eq_zero.mp hpoint ▸ dvd_zero 10)
    · exact absurd hpower (zpow_ne_zero power (by norm_num))
  rw [hotherValue] at hother
  have hfew := Format.shortest_significand_lt hcanonical hhigh hpos hshort hother
  have hrounds := Format.shortest_roundsTo hcanonical hhigh
  rw [← hexact, hvalue] at hrounds
  have hpower := Format.le_shortest_exponent hcanonical hhigh hpos hrounds
  generalize Format.binary32.shortest significand exponent = shortest at *
  have hsame : point = shortest.significand := by
    obtain ⟨shift, hshift⟩ : ∃ shift : ℕ, shortest.exponent = power + shift :=
      ⟨(shortest.exponent - power).toNat, by omega⟩
    have hmultiple : point = shortest.significand * 10 ^ shift := by
      have hcast : (point : ℚ) = (shortest.significand * 10 ^ shift : ℕ) := by
        rw [hvalue, hshift, zpow_add₀ (by norm_num), zpow_natCast, mul_comm ((10 : ℚ) ^ power),
          ← mul_assoc] at hexact
        push_cast
        exact mul_right_cancel₀ (zpow_ne_zero power (by norm_num)) hexact
      exact_mod_cast hcast
    cases shift with
    | zero => simpa using hmultiple
    | succ shift =>
        refine absurd ?_ hten
        rw [hmultiple, Nat.pow_succ, ← Nat.mul_assoc]
        exact dvd_mul_left 10 _
  have hlt : 10 ^ (numeral.significant - 1) < 10 ^ other.significant := by omega
  have hless := (Nat.pow_lt_pow_iff_right (by norm_num)).mp hlt
  omega

end PointNumeral

/-! ## Reading -/

/-- A numeral with a minus in front of it, or without. -/
def signedText (negative : Bool) (numeral : List Char) : List Char :=
  if negative then '-' :: numeral else numeral

def readNumeral? (negative : Bool) (text : List Char) : Option Float32 :=
  match text.splitOn '.' with
  | [whole, fraction] =>
    if whole ≠ [] ∧ fraction ≠ [] ∧ (whole ++ fraction).all Char.isDigit then
      some (Binary32.ofWord (Format.binary32.roundRatio negative
        (Nat.ofDigitChars 10 (whole ++ fraction) 0) (powerOfTen fraction.length)))
    else none
  | _ => none

/-- The number of a literal: the nearest one to a numeral, or what a division by zero gives. -/
def readLiteral? : List Char → Option Float32
  | '(' :: rest =>
    if rest = "0.0/0.0)".toList then some Binary32.notANumber
    else if rest = "1.0/0.0)".toList then
      some (Binary32.ofWord (Format.binary32.infinityWord false))
    else if rest = "-1.0/0.0)".toList then
      some (Binary32.ofWord (Format.binary32.infinityWord true))
    else none
  | '-' :: rest => readNumeral? true rest
  | text => readNumeral? false text

theorem readNumeral?_text (negative : Bool) (numeral : PointNumeral) :
    readNumeral? negative numeral.text = some (numeral.signed negative) := by
  have hpoint : ∀ digits : List Char, (∀ c ∈ digits, c.isDigit = true) → '.' ∉ digits :=
    fun digits hdigits hmem => absurd (hdigits _ hmem) (by decide)
  have hsplit : numeral.text.splitOn '.' = [numeral.whole, numeral.fraction] := by
    have htext : numeral.text = ['.'].intercalate [numeral.whole, numeral.fraction] := by
      simp [PointNumeral.text]
    rw [htext, List.splitOn_intercalate]
    · simp [hpoint _ numeral.whole_digits, hpoint _ numeral.fraction_digits]
    · simp
  have hall : (numeral.whole ++ numeral.fraction).all Char.isDigit = true :=
    List.all_eq_true.mpr numeral.isDigit_digits
  rw [readNumeral?, hsplit]
  simp only
  rw [if_pos ⟨numeral.whole_ne, numeral.fraction_ne, hall⟩]
  rfl

theorem readLiteral?_signedText (negative : Bool) (numeral : PointNumeral) :
    readLiteral? (signedText negative numeral.text) = some (numeral.signed negative) := by
  cases negative with
  | true => exact readNumeral?_text true numeral
  | false =>
      rw [← readNumeral?_text]
      obtain ⟨first, rest, hwhole⟩ := List.exists_cons_of_ne_nil numeral.whole_ne
      have hdigit := numeral.whole_digits first (by simp [hwhole])
      have htext : signedText false numeral.text = numeral.text := rfl
      rw [htext, PointNumeral.text, hwhole, List.cons_append, readLiteral?]
      · rintro tail ⟨⟩
        exact absurd hdigit (by decide)
      · rintro tail ⟨⟩
        exact absurd hdigit (by decide)

/-- A numeral is read as a finite number exactly if the number is nearest to it. -/
theorem readLiteral?_eq_iff_nearest {x : Float32} {negative : Bool} {significand : ℕ}
    {exponent : ℤ} (hparts : Binary32.parts x = .finite negative significand exponent)
    (numeral : PointNumeral) :
    readLiteral? (signedText negative numeral.text) = some x ↔
      Format.binary32.Nearest significand exponent numeral.exact := by
  obtain ⟨hcanonical, hhigh⟩ := Binary32.canonical_of_parts hparts
  rw [readLiteral?_signedText, Option.some.injEq,
    Format.nearest_iff_roundsTo hcanonical numeral.exact_nonneg]
  constructor
  · intro hread
    obtain ⟨found, power, hfound, hrounds⟩ := Format.exists_roundsTo
      (show 0 < Format.binary32.fractionBits by decide)
      (Nat.ofDigitChars 10 (numeral.whole ++ numeral.fraction) 0)
      (powerOfTen_pos numeral.fraction.length)
    rw [← PointNumeral.exact_eq] at hrounds
    rw [numeral.signed_of_roundsTo hfound negative hrounds] at hread
    rcases le_or_gt power 104 with hlow | hbeyond
    · rw [← hread, Binary32.parts_ofWord_encode hfound hlow] at hparts
      injection hparts with _ hsignificand hexponent
      rwa [← hsignificand, ← hexponent]
    · rw [← hread, Binary32.encode_of_lt hfound hbeyond, Binary32.parts_infinity] at hparts
      cases hparts
  · intro hrounds
    rw [numeral.signed_of_roundsTo hcanonical negative hrounds,
      Binary32.ofWord_encode_of_parts hparts]

theorem toList_floatText_finite {x : Float32} {negative : Bool} {significand : ℕ} {exponent : ℤ}
    (hparts : Binary32.parts x = .finite negative significand exponent) :
    ∃ numeral : PointNumeral,
      (floatText x).toList = signedText negative numeral.text ∧
        Format.binary32.Nearest significand exponent numeral.exact ∧
        ∀ other : PointNumeral, Format.binary32.Nearest significand exponent other.exact →
          numeral.significant ≤ other.significant := by
  obtain ⟨hcanonical, hhigh⟩ := Binary32.canonical_of_parts hparts
  obtain ⟨numeral, htext, hexact⟩ := exists_shortest_numeral hparts
  have hrounds := Format.shortest_roundsTo hcanonical hhigh
  rw [← hexact] at hrounds
  refine ⟨numeral, ?_, hrounds.nearest hcanonical, fun other hother => ?_⟩
  · rw [htext, signedText]
    cases negative <;> simp
  · exact numeral.significant_le hcanonical hhigh hexact
      (hother.roundsTo hcanonical other.exact_nonneg)

/-- Every number is read back from its literal. -/
theorem readLiteral?_floatText (x : Float32) : readLiteral? (floatText x).toList = some x := by
  cases hparts : Binary32.parts x with
  | notANumber =>
      have htext : floatText x = "(0.0/0.0)" := by simp [floatText, hparts]
      rw [htext, Binary32.eq_notANumber_of_parts hparts]
      rfl
  | infinite negative =>
      rw [Binary32.eq_infinity_of_parts hparts, floatText, Binary32.parts_infinity]
      cases negative <;> rfl
  | finite negative significand exponent =>
      obtain ⟨numeral, htext, hnearest, -⟩ := toList_floatText_finite hparts
      rw [htext]
      exact (readLiteral?_eq_iff_nearest hparts numeral).mpr hnearest

/-! ## Bytes of literals -/

/-- The characters that stand in literals. -/
def literalChars : List Char := "0123456789.-()/".toList

theorem mem_literalChars_of_isDigit {c : Char} (hdigit : c.isDigit = true) : c ∈ literalChars := by
  obtain ⟨hlow, hhigh⟩ := digit_bounds hdigit
  have hzero : '0'.toNat = 48 := rfl
  have hupper : c.toNat ≤ 57 := by omega
  have hlower : 48 ≤ c.toNat := by omega
  rw [← Char.ofNat_toNat c]
  interval_cases c.toNat <;> decide

theorem PointNumeral.mem_literalChars (numeral : PointNumeral) {c : Char}
    (hc : c ∈ numeral.text) : c ∈ literalChars := by
  rw [PointNumeral.text, List.mem_append, List.mem_cons] at hc
  rcases hc with hwhole | rfl | hfraction
  · exact mem_literalChars_of_isDigit (numeral.whole_digits c hwhole)
  · decide
  · exact mem_literalChars_of_isDigit (numeral.fraction_digits c hfraction)

theorem mem_literalChars_of_signedText {negative : Bool} {numeral : PointNumeral} {c : Char}
    (hc : c ∈ signedText negative numeral.text) : c ∈ literalChars := by
  rw [signedText] at hc
  split_ifs at hc
  · rcases List.mem_cons.mp hc with rfl | hnumeral
    · decide
    · exact numeral.mem_literalChars hnumeral
  · exact numeral.mem_literalChars hc

theorem mem_literalChars_of_floatText {x : Float32} {c : Char} (hc : c ∈ (floatText x).toList) :
    c ∈ literalChars := by
  cases hparts : Binary32.parts x with
  | notANumber =>
      rw [floatText, hparts] at hc
      exact (show "(0.0/0.0)".toList ⊆ literalChars by decide) hc
  | infinite negative =>
      rw [floatText, hparts] at hc
      cases negative with
      | false => exact (show "(1.0/0.0)".toList ⊆ literalChars by decide) hc
      | true => exact (show "(-1.0/0.0)".toList ⊆ literalChars by decide) hc
  | finite negative significand exponent =>
      obtain ⟨numeral, htext, -⟩ := toList_floatText_finite hparts
      rw [htext] at hc
      exact mem_literalChars_of_signedText hc

theorem toNat_le_of_mem_literalChars (c : Char) (hc : c ∈ literalChars) : c.toNat ≤ 127 := by
  have hall : literalChars.all (fun c => c.toNat ≤ 127) = true := rfl
  simpa using List.all_eq_true.mp hall c hc

section Bytes

variable {text : String} (hliteral : ∀ c ∈ text.toList, c ∈ literalChars)

include hliteral

theorem bytes_eq_of_literalChars :
    Text.bytes text = text.toList.map fun c => UInt8.ofNat c.toNat :=
  Text.bytes_eq_map fun c hc => toNat_le_of_mem_literalChars c (hliteral c hc)

theorem map_byteChar_bytes : (Text.bytes text).map byteChar = text.toList := by
  rw [bytes_eq_of_literalChars hliteral, List.map_map]
  conv_rhs => rw [← List.map_id text.toList]
  apply List.map_congr_left
  intro c hc
  have hseven := toNat_le_of_mem_literalChars c (hliteral c hc)
  rw [Function.comp_apply, byteChar, UInt8.toNat_ofNat', Nat.mod_eq_of_lt (by omega),
    Char.ofNat_toNat]
  rfl

theorem mem_bytes_literalChars {b : UInt8} (hb : b ∈ Text.bytes text) :
    b ∈ Text.bytes "0123456789.-()/" := by
  rw [bytes_eq_of_literalChars hliteral] at hb
  obtain ⟨c, hc, rfl⟩ := List.mem_map.mp hb
  rw [Text.bytes_eq_map toNat_le_of_mem_literalChars]
  exact List.mem_map_of_mem (hliteral c hc)

theorem point_mem_bytes_iff : 0x2e ∈ Text.bytes text ↔ '.' ∈ text.toList := by
  constructor
  · intro hpoint
    rw [← map_byteChar_bytes hliteral]
    exact List.mem_map_of_mem hpoint
  · intro hpoint
    rw [bytes_eq_of_literalChars hliteral]
    exact List.mem_map_of_mem hpoint

end Bytes

theorem Decimal.mem_literalChars {d : Decimal} {c : Char} (hc : c ∈ d.positional.toList) :
    c ∈ literalChars := by
  obtain ⟨numeral, htext, -⟩ := d.exists_numeral
  apply numeral.mem_literalChars
  rw [← @String.toList_ofList numeral.text, ← htext]
  split_ifs
  · exact hc
  · rw [String.toList_append]
    exact List.mem_append_left _ hc

/-- What is appended does not depend on what stands before it. -/
theorem appendFloat_eq (buffer : List UInt8) (x : Float32) :
    appendFloat buffer x = buffer ++ Text.bytes (floatText x) := by
  unfold appendFloat floatText
  cases Binary32.parts x with
  | notANumber => rfl
  | infinite negative => cases negative <;> rfl
  | finite negative significand exponent =>
      simp only [List.drop_left]
      generalize hdecimal : Format.binary32.shortest significand exponent = decimal
      have hsigned : ∀ c ∈ ((if negative then "-" else "") ++ decimal.positional).toList,
          c ∈ literalChars := by
        intro c hc
        rw [String.toList_append, List.mem_append] at hc
        rcases hc with hsign | hdigits
        · have hsigns : (if negative then "-" else "").toList ⊆ literalChars := by
            cases negative <;> decide
          exact hsigns hsign
        · exact Decimal.mem_literalChars hdigits
      have hpoint : ((Text.bytes ((if negative then "-" else "") ++
          decimal.positional)).contains 0x2e = true) ↔ decimal.positional.contains '.' = true := by
        rw [List.contains_iff_mem, point_mem_bytes_iff hsigned]
        cases negative <;> simp
      by_cases hcontains : decimal.positional.contains '.' = true
      · rw [if_pos (hpoint.mpr hcontains), if_pos hcontains]
      · rw [if_neg (mt hpoint.mp hcontains), if_neg hcontains, ← String.append_assoc,
          Text.bytes_append _ ".0", List.append_assoc]

theorem appendFloats_eq (buffer : List UInt8) (separator : UInt8) (values : List Float32) :
    appendFloats buffer separator values = buffer ++
      (if separator = 0 then [] else [separator]).intercalate
        (values.map fun x => Text.bytes (floatText x)) := by
  induction values generalizing buffer with
  | nil => simp [appendFloats]
  | cons x rest ih =>
      cases rest with
      | nil => simp [appendFloats, appendFloat_eq]
      | cons y rest =>
          rw [appendFloats, ih, appendFloat_eq]
          · split_ifs <;> simp [List.intercalate]
          · simp

/-! ## Reading back -/

/-- The number of the bytes of a literal. -/
def readBytes? (bytes : List UInt8) : Option Float32 := readLiteral? (bytes.map byteChar)

theorem readBytes?_floatText (x : Float32) : readBytes? (Text.bytes (floatText x)) = some x := by
  rw [readBytes?, map_byteChar_bytes fun c hc => mem_literalChars_of_floatText hc,
    readLiteral?_floatText]

/-- The bytes of a numeral with its sign. -/
def signedBytes (negative : Bool) (numeral : PointNumeral) : List UInt8 :=
  Text.bytes (String.ofList (signedText negative numeral.text))

theorem readBytes?_signedBytes (negative : Bool) (numeral : PointNumeral) :
    readBytes? (signedBytes negative numeral) =
      readLiteral? (signedText negative numeral.text) := by
  rw [readBytes?, signedBytes, map_byteChar_bytes, String.toList_ofList]
  intro c hc
  rw [String.toList_ofList] at hc
  exact mem_literalChars_of_signedText hc

theorem splitOn_appendFloats {separator : UInt8} (hnonzero : separator ≠ 0)
    (hseparator : separator ∉ Text.bytes "0123456789.-()/") {values : List Float32}
    (hsome : values ≠ []) :
    (appendFloats [] separator values).splitOn separator =
      values.map fun x => Text.bytes (floatText x) := by
  rw [appendFloats_eq, if_neg hnonzero, List.nil_append, List.splitOn_intercalate]
  · intro literal hliteral hmem
    obtain ⟨x, -, rfl⟩ := List.mem_map.mp hliteral
    exact hseparator (mem_bytes_literalChars (fun c hc => mem_literalChars_of_floatText hc) hmem)
  · simpa using hsome

/-- A number is appended to bytes without regard to what they are.  The literal of a finite number
is a minus, if the sign bit is set, and a numeral to which the number is nearest, with the fewest
significant digits of all such numerals; and these are the numerals that are read as the number.
Different numbers, finite or not, have different literals, and a list of numbers is read back once
it is cut at its separators. -/
theorem literals_read_back :
    (∀ buffer x, appendFloat buffer x = buffer ++ appendFloat [] x) ∧
    (∀ x negative significand exponent,
      Binary32.parts x = .finite negative significand exponent →
        Binary32.isNegative x = negative ∧
        (∃ numeral : PointNumeral,
          (∀ buffer, appendFloat buffer x = buffer ++ signedBytes negative numeral) ∧
            Format.binary32.Nearest significand exponent numeral.exact ∧
            ∀ other : PointNumeral, Format.binary32.Nearest significand exponent other.exact →
              numeral.significant ≤ other.significant) ∧
        ∀ numeral : PointNumeral, readBytes? (signedBytes negative numeral) = some x ↔
          Format.binary32.Nearest significand exponent numeral.exact) ∧
    Function.Injective (appendFloat []) ∧
    (∀ buffer separator values,
      appendFloats buffer separator values = buffer ++ appendFloats [] separator values) ∧
    ∀ separator, separator ≠ 0 → separator ∉ Text.bytes "0123456789.-()/" →
      ∀ values : List Float32, values ≠ [] →
        ((appendFloats [] separator values).splitOn separator).map readBytes? =
          values.map some := by
  refine ⟨fun buffer x => ?_, fun x negative significand exponent hparts => ⟨?_, ?_, ?_⟩,
    fun x y hbytes => ?_, fun buffer separator values => ?_,
    fun separator hnonzero hseparator values hsome => ?_⟩
  · rw [appendFloat_eq, appendFloat_eq [], List.nil_append]
  · exact Binary32.isNegative_of_parts hparts
  · obtain ⟨numeral, htext, hnearest, hfewest⟩ := toList_floatText_finite hparts
    refine ⟨numeral, fun buffer => ?_, hnearest, hfewest⟩
    rw [appendFloat_eq, signedBytes, ← htext, String.ofList_toList]
  · intro numeral
    rw [readBytes?_signedBytes]
    exact readLiteral?_eq_iff_nearest hparts numeral
  · rw [appendFloat_eq, appendFloat_eq, List.nil_append, List.nil_append] at hbytes
    have hread := readBytes?_floatText x
    rw [hbytes, readBytes?_floatText y] at hread
    exact (Option.some.inj hread).symm
  · rw [appendFloats_eq, appendFloats_eq [], List.nil_append]
  · rw [splitOn_appendFloats hnonzero hseparator hsome, List.map_map]
    exact List.map_congr_left fun x _ => readBytes?_floatText x

/-- Negative zero among numbers without a numeral, and the least number above zero, which is
appended behind a point.  The separator is no character of its own. -/
theorem literals_read_back_extremes :
    Binary32.parts (Binary32.ofWord (2 ^ 31)) = .finite true 0 (-149) ∧
      Binary32.isNegative (Binary32.ofWord (2 ^ 31)) = true ∧
      Binary32.parts (Binary32.ofWord 1) = .finite false 1 (-149) ∧
      (∃ numeral : PointNumeral,
        appendFloat [0x2e] (Binary32.ofWord 1) = 0x2e :: signedBytes false numeral ∧
          Format.binary32.Nearest 1 (-149) numeral.exact ∧
          ∀ other : PointNumeral, Format.binary32.Nearest 1 (-149) other.exact →
            numeral.significant ≤ other.significant) ∧
      0xff ∉ Text.bytes "0123456789.-()/" ∧
      ((appendFloats [] 0xff [Binary32.ofWord (2 ^ 31), Binary32.notANumber,
        Binary32.ofWord (Format.binary32.infinityWord true),
        Binary32.ofWord 1]).splitOn 0xff).map readBytes? =
        [some (Binary32.ofWord (2 ^ 31)), some Binary32.notANumber,
          some (Binary32.ofWord (Format.binary32.infinityWord true)),
          some (Binary32.ofWord 1)] := by
  obtain ⟨-, hfinite, -, -, hlists⟩ := literals_read_back
  have hzero : Binary32.parts (Binary32.ofWord (2 ^ 31)) = .finite true 0 (-149) := by decide
  have hleast : Binary32.parts (Binary32.ofWord 1) = .finite false 1 (-149) := by decide
  have hseparator : 0xff ∉ Text.bytes "0123456789.-()/" := by decide
  obtain ⟨numeral, happend, hnearest, hfewest⟩ := (hfinite _ _ _ _ hleast).2.1
  exact ⟨hzero, (hfinite _ _ _ _ hzero).1, hleast, ⟨numeral, happend [0x2e], hnearest, hfewest⟩,
    hseparator, hlists 0xff (by decide) hseparator _ (List.cons_ne_nil _ _)⟩

end NoiseShader.Number
