import NoiseShader.Proofs.Number.Shortest
import NoiseShader.Proofs.Number.Word
import NoiseShader.Syntax.Render
import Mathlib.Tactic

/-!
# Reading decimal numerals

A decimal numeral stands for the single precision number that is nearest to it.
The text of a finite number is a sign and a numeral, and the numeral reads as
the absolute value of the number: the shortest decimal that is written for a
number lies in the interval that rounds to it.
-/

namespace NoiseShader.Number

/-- The single precision number nearest to a decimal numeral: the value of its digits, the point
left out, and the number of digits after the point. -/
def readDecimal (digits places : ℕ) : Float32 :=
  Binary32.ofWord (Format.binary32.roundRatio false digits (powerOfTen places))

/-- A decimal numeral cut at its point. -/
structure PointNumeral where
  whole : List Char
  fraction : List Char
  whole_ne : whole ≠ []
  fraction_ne : fraction ≠ []
  whole_digits : ∀ c ∈ whole, c.isDigit = true
  fraction_digits : ∀ c ∈ fraction, c.isDigit = true

namespace PointNumeral

def text (numeral : PointNumeral) : List Char := numeral.whole ++ '.' :: numeral.fraction

def value (numeral : PointNumeral) : Float32 :=
  readDecimal (Nat.ofDigitChars 10 (numeral.whole ++ numeral.fraction) 0) numeral.fraction.length

def exact (numeral : PointNumeral) : ℚ :=
  Nat.ofDigitChars 10 (numeral.whole ++ numeral.fraction) 0 / 10 ^ numeral.fraction.length

end PointNumeral

theorem isDigit_toDigits {n : ℕ} {c : Char} (hc : c ∈ Nat.toDigits 10 n) : c.isDigit = true :=
  Nat.isDigit_of_mem_toDigits (by norm_num) (by norm_num) hc

theorem isDigit_replicate_zero {n : ℕ} {c : Char} (hc : c ∈ List.replicate n '0') :
    c.isDigit = true := by
  rw [List.eq_of_mem_replicate hc]
  rfl

theorem PointNumeral.point_mem_text (numeral : PointNumeral) : '.' ∈ numeral.text := by
  simp [PointNumeral.text]

theorem Decimal.exists_numeral_whole {d : Decimal} (hsign : 0 ≤ d.exponent) :
    ∃ numeral : PointNumeral,
      d.positional ++ ".0" = String.ofList numeral.text ∧ '.' ∉ d.positional.toList ∧
        numeral.exact = d.significand * 10 ^ d.exponent := by
  have hwhole : ∀ c ∈ Nat.toDigits 10 d.significand ++ List.replicate d.exponent.toNat '0',
      c.isDigit = true := by
    intro c hc
    rcases List.mem_append.mp hc with hdigit | hzero
    · exact isDigit_toDigits hdigit
    · exact isDigit_replicate_zero hzero
  have htext : d.positional =
      String.ofList (Nat.toDigits 10 d.significand ++ List.replicate d.exponent.toNat '0') := by
    unfold Decimal.positional
    simp only
    rw [if_pos hsign]
  refine ⟨⟨Nat.toDigits 10 d.significand ++ List.replicate d.exponent.toNat '0', ['0'], ?_, ?_,
    hwhole, ?_⟩, ?_, ?_, ?_⟩
  · simp
  · simp
  · simp
  · rw [htext, ← String.ofList_append]
    simp [PointNumeral.text]
  · rw [htext, String.toList_ofList]
    intro hmem
    exact absurd (hwhole _ hmem) (by decide)
  · unfold PointNumeral.exact
    simp only
    rw [Nat.ofDigitChars_append, Nat.ofDigitChars_append, Nat.ofDigitChars_ten_toDigits,
      Nat.ofDigitChars_replicate_zero]
    obtain ⟨n, hn⟩ := Int.eq_ofNat_of_zero_le hsign
    rw [hn]
    simp [Nat.ofDigitChars_cons]
    ring

theorem Decimal.exists_numeral_fraction {d : Decimal} (hsign : d.exponent < 0) :
    ∃ numeral : PointNumeral,
      d.positional = String.ofList numeral.text ∧
        numeral.exact = d.significand * 10 ^ d.exponent := by
  obtain ⟨places, hplaces⟩ : ∃ places : ℕ, d.exponent = -(places : ℤ) :=
    ⟨(-d.exponent).toNat, by omega⟩
  have hplacesPos : 0 < places := by omega
  have htoNat : (-d.exponent).toNat = places := by omega
  unfold Decimal.positional
  simp only
  rw [if_neg (by omega), htoNat]
  split_ifs with hshort
  · refine ⟨⟨(Nat.toDigits 10 d.significand).take
        ((Nat.toDigits 10 d.significand).length - places),
      (Nat.toDigits 10 d.significand).drop ((Nat.toDigits 10 d.significand).length - places),
      ?_, ?_, ?_, ?_⟩, rfl, ?_⟩
    · intro h
      have := congrArg List.length h
      simp at this
      omega
    · intro h
      have := congrArg List.length h
      simp at this
      omega
    · exact fun c hc => isDigit_toDigits (List.mem_of_mem_take hc)
    · exact fun c hc => isDigit_toDigits (List.mem_of_mem_drop hc)
    · unfold PointNumeral.exact
      simp only
      rw [List.take_append_drop, Nat.ofDigitChars_ten_toDigits, List.length_drop, hplaces]
      have hlength : (Nat.toDigits 10 d.significand).length -
          ((Nat.toDigits 10 d.significand).length - places) = places := by omega
      rw [hlength, zpow_neg, zpow_natCast, div_eq_mul_inv]
  · refine ⟨⟨['0'], List.replicate (places - (Nat.toDigits 10 d.significand).length) '0' ++
      Nat.toDigits 10 d.significand, ?_, ?_, ?_, ?_⟩, rfl, ?_⟩
    · simp
    · simp
    · simp
    · intro c hc
      rcases List.mem_append.mp hc with hzero | hdigit
      · exact isDigit_replicate_zero hzero
      · exact isDigit_toDigits hdigit
    · unfold PointNumeral.exact
      simp only
      rw [Nat.ofDigitChars_append, Nat.ofDigitChars_append, Nat.ofDigitChars_replicate_zero]
      have hlength : (List.replicate (places - (Nat.toDigits 10 d.significand).length) '0' ++
          Nat.toDigits 10 d.significand).length = places := by
        simp
        omega
      have hzero : Nat.ofDigitChars 10 ['0'] 0 = 0 := rfl
      rw [hlength, hzero, Nat.mul_zero, Nat.ofDigitChars_ten_toDigits, hplaces, zpow_neg,
        zpow_natCast, div_eq_mul_inv]

/-- The text of a decimal is a numeral of the same value, once it has a point. -/
theorem Decimal.exists_numeral (d : Decimal) :
    ∃ numeral : PointNumeral,
      (if d.positional.contains '.' then d.positional else d.positional ++ ".0") =
        String.ofList numeral.text ∧
      numeral.exact = d.significand * 10 ^ d.exponent := by
  rcases le_or_gt 0 d.exponent with hsign | hsign
  · obtain ⟨numeral, htext, hpoint, hexact⟩ := Decimal.exists_numeral_whole hsign
    refine ⟨numeral, ?_, hexact⟩
    rw [if_neg (by simpa using hpoint)]
    exact htext
  · obtain ⟨numeral, htext, hexact⟩ := Decimal.exists_numeral_fraction hsign
    refine ⟨numeral, ?_, hexact⟩
    rw [if_pos (by rw [htext]; simpa using numeral.point_mem_text)]
    exact htext

/-- The single precision number nearest to a numeral with a sign. -/
def PointNumeral.signed (negative : Bool) (numeral : PointNumeral) : Float32 :=
  Binary32.ofWord (Format.binary32.roundRatio negative
    (Nat.ofDigitChars 10 (numeral.whole ++ numeral.fraction) 0)
    (powerOfTen numeral.fraction.length))

theorem PointNumeral.exact_eq (numeral : PointNumeral) :
    numeral.exact = (Nat.ofDigitChars 10 (numeral.whole ++ numeral.fraction) 0 : ℕ) /
      (powerOfTen numeral.fraction.length : ℕ) := by
  unfold PointNumeral.exact powerOfTen
  rw [Nat.pow_eq]
  push_cast
  rfl

theorem PointNumeral.signed_of_roundsTo {numeral : PointNumeral} {significand : ℕ} {exponent : ℤ}
    (hcanonical : Format.binary32.Canonical significand exponent) (negative : Bool)
    (hrounds : Format.binary32.RoundsTo significand exponent numeral.exact) :
    numeral.signed negative =
      Binary32.ofWord (Format.binary32.encode negative significand exponent) := by
  rw [PointNumeral.exact_eq] at hrounds
  rw [PointNumeral.signed,
    Format.roundRatio_of_roundsTo hcanonical negative (powerOfTen_pos _) hrounds]

/-- A numeral that rounds to a number reads as the number. -/
theorem PointNumeral.value_of_roundsTo {numeral : PointNumeral} {x : Float32} {significand : ℕ}
    {exponent : ℤ} (hparts : Binary32.parts x = .finite false significand exponent)
    (hrounds : Format.binary32.RoundsTo significand exponent numeral.exact) :
    numeral.value = x :=
  (numeral.signed_of_roundsTo (Binary32.canonical_of_parts hparts).1 false hrounds).trans
    (Binary32.ofWord_encode_of_parts hparts)

/-- The text of a finite number: a sign, and a numeral of its shortest decimal. -/
theorem exists_shortest_numeral {x : Float32} {negative : Bool} {significand : ℕ} {exponent : ℤ}
    (hparts : Binary32.parts x = .finite negative significand exponent) :
    ∃ numeral : PointNumeral,
      floatText x = (if negative then "-" else "") ++ String.ofList numeral.text ∧
        numeral.exact = (Format.binary32.shortest significand exponent).significand *
          10 ^ (Format.binary32.shortest significand exponent).exponent := by
  obtain ⟨numeral, htext, hexact⟩ :=
    Decimal.exists_numeral (Format.binary32.shortest significand exponent)
  refine ⟨numeral, ?_, hexact⟩
  unfold floatText
  rw [hparts]
  simp only
  rw [htext]

/-- The numeral in the text of a finite number reads as its absolute value. -/
theorem exists_numeral_floatText {x : Float32} {negative : Bool} {significand : ℕ} {exponent : ℤ}
    (hparts : Binary32.parts x = .finite negative significand exponent) :
    ∃ numeral : PointNumeral,
      floatText x = (if negative then "-" else "") ++ String.ofList numeral.text ∧
        numeral.value = x.abs := by
  obtain ⟨hcanonical, hhigh⟩ := Binary32.canonical_of_parts hparts
  obtain ⟨numeral, htext, hexact⟩ := exists_shortest_numeral hparts
  refine ⟨numeral, htext, PointNumeral.value_of_roundsTo (Binary32.parts_abs hparts) ?_⟩
  rw [hexact]
  exact Format.shortest_roundsTo hcanonical hhigh

end NoiseShader.Number
