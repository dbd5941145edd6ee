import NoiseShader.Proofs.Number.Literal
import NoiseShader.Proofs.Number.Order

/-!
# Signs of narrowed numbers

Rounding a double to single precision keeps its sign, also where the result
overflows or vanishes.  A double is below zero exactly if it has a minus sign and
is not the negative zero, so the order does not see every sign that is written.
-/

namespace NoiseShader.Number

open Float.Model (UnpackedFloat)

namespace Parts

/-- Whether a number is negative, zeros included. -/
def sign? : Parts → Option Bool
  | notANumber => none
  | infinite negative => some negative
  | finite negative _ _ => some negative

end Parts

namespace Binary32

theorem sign?_roundRatio (negative : Bool) (numerator : ℕ) {denominator : ℕ}
    (hdenominator : 0 < denominator) :
    (parts (ofWord (Format.binary32.roundRatio negative numerator denominator))).sign? =
      some negative := by
  obtain ⟨significand, exponent, hcanonical, hrounds⟩ :=
    @Format.exists_roundsTo .binary32 (by decide) numerator denominator hdenominator
  rw [Format.roundRatio_of_roundsTo hcanonical negative hdenominator hrounds]
  by_cases hhigh : exponent ≤ 104
  · rw [parts_ofWord_encode hcanonical hhigh]
    rfl
  · rw [encode_of_lt hcanonical (by omega), parts_infinity]
    rfl

theorem sign?_roundDyadic (negative : Bool) (significand : ℕ) (exponent : ℤ) :
    (parts (ofWord (Format.binary32.roundDyadic negative significand exponent))).sign? =
      some negative := by
  unfold Format.roundDyadic
  split_ifs
  · exact sign?_roundRatio negative _ (Nat.pow_pos Nat.two_pos)
  · exact sign?_roundRatio negative _ Nat.one_pos

end Binary32

namespace Binary64

def parts (x : Float) : Parts := Format.binary64.decode x.toBits.toNat

theorem parts_eq_unpacked (x : Float) :
    parts x = .ofUnpacked Format.binary64 x.toModel.unpack :=
  @decode_toNat .binary64 _

theorem sign?_ofDouble (x : Float) :
    (Binary32.parts (Binary32.ofDouble x)).sign? = (parts x).sign? := by
  unfold Binary32.ofDouble
  change (Binary32.parts (match parts x with
    | .notANumber => _
    | .infinite negative => _
    | .finite negative significand exponent => _)).sign? = _
  cases parts x with
  | notANumber => decide
  | infinite negative => rw [Binary32.parts_infinity]
  | finite negative significand exponent => exact Binary32.sign?_roundDyadic ..

/-- The word of the zero with a minus sign. -/
def negativeZero : UInt64 := 0x8000000000000000

theorem toBits_eq_negativeZero_iff (x : Float) :
    x.toBits = negativeZero ↔ ∃ exponent, parts x = .finite true 0 exponent := by
  have hlt := x.toBits.toNat_lt
  have hword : x.toBits = negativeZero ↔ x.toBits.toNat = 2 ^ 63 := UInt64.toNat_inj.symm
  rw [hword]
  constructor
  · intro hbits
    refine ⟨-1074, ?_⟩
    unfold parts
    rw [hbits]
    rfl
  · rintro ⟨exponent, hparts⟩
    simp only [parts, Format.decode, Nat.shiftRight_eq_div_pow, powerOfTwo, Format.leadingBit,
      Format.binary64] at hparts
    split_ifs at hparts
    · simp only [Parts.finite.injEq, beq_iff_eq] at hparts
      simp only [Nat.pow_eq] at *
      omega
    · simp only [Parts.finite.injEq, Nat.pow_eq] at hparts
      omega

theorem lt_zero_iff (x : Float) :
    x < 0 ↔ (parts x).sign? = some true ∧ x.toBits ≠ negativeZero := by
  have hless : x < 0 ↔ x.toModel.unpack.lt (.zero .positive) = true :=
    Iff.of_eq (by
      change (decide _ = true) = _
      simp only [decide_eq_true_eq]
      rfl)
  rw [hless, Ne, toBits_eq_negativeZero_iff, parts_eq_unpacked]
  cases x.toModel.unpack with
  | notANumber =>
      change false = true ↔ _
      simp [Parts.sign?]
  | infinity sign =>
      have hbelow : UnpackedFloat.lt (.infinity sign) (.zero .positive) = isMinus sign := by
        cases sign <;> rfl
      rw [hbelow, Parts.ofUnpacked_infinity]
      simp [Parts.sign?]
  | zero sign =>
      have hbelow : UnpackedFloat.lt (.zero sign) (.zero .positive) = false := by
        cases sign <;> rfl
      rw [hbelow, Parts.ofUnpacked_zero]
      simp [Parts.sign?]
  | finite sign significand exponent hpos =>
      have hbelow : UnpackedFloat.lt (.finite sign significand exponent hpos) (.zero .positive) =
          isMinus sign := by
        cases sign <;> rfl
      rw [hbelow, Parts.ofUnpacked_finite]
      simp [Parts.sign?, hpos.ne']

end Binary64

end NoiseShader.Number
