import NoiseShader.Number.Format
import Mathlib.Tactic

/-!
# Unpacked numbers

The core library models a number by its word and computes on the word unpacked
into sign, significand and exponent.  For every format an unpacked word has the
parts that `Format.decode` reads from it.
-/

namespace NoiseShader.Number

open Float.Model (UnpackedFloat)
open Float.Model.UnpackedFloat (Sign unpackExponent unpackMantissa unpackSign)

def Format.ofModel (model : Float.Model.Format) : Format :=
  ⟨model.mantissaBitsWithoutImplicit, model.exponentBits⟩

def isMinus : Sign → Bool
  | .negative => true
  | .positive => false

def Parts.ofUnpacked (format : Format) : UnpackedFloat → Parts
  | .notANumber => .notANumber
  | .infinity sign => .infinite (isMinus sign)
  | .zero sign => .finite (isMinus sign) 0 format.leastExponent
  | .finite sign significand exponent _ => .finite (isMinus sign) significand exponent

section Parts

variable (format : Format) (sign : Sign)

@[simp] theorem Parts.ofUnpacked_notANumber : ofUnpacked format .notANumber = .notANumber := rfl

@[simp] theorem Parts.ofUnpacked_infinity :
    ofUnpacked format (.infinity sign) = .infinite (isMinus sign) := rfl

@[simp] theorem Parts.ofUnpacked_zero :
    ofUnpacked format (.zero sign) = .finite (isMinus sign) 0 format.leastExponent := rfl

@[simp] theorem Parts.ofUnpacked_finite (significand : ℕ) (exponent : ℤ) (hpos : 0 < significand) :
    ofUnpacked format (.finite sign significand exponent hpos) =
      .finite (isMinus sign) significand exponent := rfl

end Parts

variable {model : Float.Model.Format} (word : BitVec model.numBits)

theorem toNat_unpackMantissa :
    (unpackMantissa word).toNat = word.toNat % (Format.ofModel model).leadingBit := by
  have hlength : model.mantissaBitsWithoutImplicit - 1 + 1 =
      model.mantissaBitsWithoutImplicit := by
    have := model.hm
    omega
  simp [unpackMantissa, BitVec.extractLsb, BitVec.extractLsb'_toNat, hlength, Format.leadingBit,
    Format.ofModel, powerOfTwo]

theorem toNat_unpackExponent :
    (unpackExponent word).toNat =
      (word.toNat >>> (Format.ofModel model).fractionBits) %
        powerOfTwo (Format.ofModel model).exponentBits := by
  have hlength : model.mantissaBitsWithoutImplicit + model.exponentBits - 1 -
      model.mantissaBitsWithoutImplicit + 1 = model.exponentBits := by
    have := model.he
    omega
  simp [unpackExponent, BitVec.extractLsb, BitVec.extractLsb'_toNat, hlength, Format.ofModel,
    powerOfTwo]

theorem toNat_unpackSign :
    (unpackSign word).toNat =
      (word.toNat >>> ((Format.ofModel model).fractionBits +
        (Format.ofModel model).exponentBits)) % 2 := by
  unfold unpackSign
  simp [BitVec.extractLsb, BitVec.extractLsb'_toNat, Format.ofModel]

theorem isMinus_unpackSign :
    isMinus (Sign.ofBitVec (unpackSign word)) =
      ((word.toNat >>> ((Format.ofModel model).fractionBits +
        (Format.ofModel model).exponentBits)) % 2 == 1) := by
  rw [← toNat_unpackSign]
  generalize unpackSign word = bit
  revert bit
  decide

theorem leastExponent_ofModel (model : Float.Model.Format) :
    (Format.ofModel model).leastExponent =
      1 - ((model.exponentBias : ℤ) + model.mantissaBitsWithoutImplicit) := by
  have hpos : 1 ≤ 2 ^ (model.exponentBits - 1) := Nat.one_le_two_pow
  have hpower : powerOfTwo (model.exponentBits - 1) = 2 ^ (model.exponentBits - 1) := rfl
  simp only [Format.leastExponent, Format.ofModel, Float.Model.Format.exponentBias, hpower]
  omega

theorem toNat_leading_append :
    (1#1 ++ unpackMantissa word).toNat =
      (Format.ofModel model).leadingBit + (unpackMantissa word).toNat := by
  rw [BitVec.toNat_append, ← Nat.shiftLeft_add_eq_or_of_lt (BitVec.isLt _)]
  simp [Nat.shiftLeft_eq, Format.leadingBit, Format.ofModel, powerOfTwo]

/-- What a word is unpacked into, by its exponent field and its mantissa field. -/
inductive Unpacks (word : BitVec model.numBits) : UnpackedFloat → Prop
  | infinity (htop : unpackExponent word = -BitVec.ofNat model.exponentBits 1)
      (hzero : unpackMantissa word = BitVec.ofNat model.mantissaBitsWithoutImplicit 0) :
      Unpacks word (.infinity (Sign.ofBitVec (unpackSign word)))
  | notANumber (htop : unpackExponent word = -BitVec.ofNat model.exponentBits 1)
      (hmantissa : unpackMantissa word ≠ BitVec.ofNat model.mantissaBitsWithoutImplicit 0) :
      Unpacks word .notANumber
  | zero (htop : unpackExponent word ≠ -BitVec.ofNat model.exponentBits 1)
      (hbottom : unpackExponent word = BitVec.ofNat model.exponentBits 0)
      (hzero : unpackMantissa word = BitVec.ofNat model.mantissaBitsWithoutImplicit 0) :
      Unpacks word (.zero (Sign.ofBitVec (unpackSign word)))
  | subnormal (htop : unpackExponent word ≠ -BitVec.ofNat model.exponentBits 1)
      (hbottom : unpackExponent word = BitVec.ofNat model.exponentBits 0)
      (hmantissa : unpackMantissa word ≠ BitVec.ofNat model.mantissaBitsWithoutImplicit 0)
      (hpos : 0 < (unpackMantissa word).toNat) :
      Unpacks word (.finite (Sign.ofBitVec (unpackSign word)) (unpackMantissa word).toNat
        ((unpackExponent word).toNat -
          (model.exponentBias + model.mantissaBitsWithoutImplicit : ℤ) + 1) hpos)
  | normal (htop : unpackExponent word ≠ -BitVec.ofNat model.exponentBits 1)
      (hbottom : unpackExponent word ≠ BitVec.ofNat model.exponentBits 0)
      (hpos : 0 < (1#1 ++ unpackMantissa word).toNat) :
      Unpacks word (.finite (Sign.ofBitVec (unpackSign word)) (1#1 ++ unpackMantissa word).toNat
        ((unpackExponent word).toNat -
          (model.exponentBias + model.mantissaBitsWithoutImplicit : ℤ)) hpos)

theorem unpacks : Unpacks word (UnpackedFloat.unpack model word) := by
  unfold UnpackedFloat.unpack
  dsimp only
  by_cases htop : unpackExponent word = -BitVec.ofNat model.exponentBits 1
  · rw [if_pos htop]
    by_cases hmantissa : unpackMantissa word = BitVec.ofNat model.mantissaBitsWithoutImplicit 0
    · rw [if_pos hmantissa]
      exact .infinity htop hmantissa
    · rw [if_neg hmantissa]
      exact .notANumber htop hmantissa
  · rw [if_neg htop]
    by_cases hbottom : unpackExponent word = BitVec.ofNat model.exponentBits 0
    · rw [if_pos hbottom]
      by_cases hmantissa : unpackMantissa word = BitVec.ofNat model.mantissaBitsWithoutImplicit 0
      · rw [dif_pos hmantissa]
        exact .zero htop hbottom hmantissa
      · rw [dif_neg hmantissa]
        exact .subnormal htop hbottom hmantissa _
    · rw [if_neg hbottom]
      exact .normal htop hbottom _

theorem decode_toNat :
    (Format.ofModel model).decode word.toNat =
      .ofUnpacked (.ofModel model) (UnpackedFloat.unpack model word) := by
  have hleast := leastExponent_ofModel model
  have htopField : (unpackExponent word).toNat = (Format.ofModel model).topField ↔
      unpackExponent word = -BitVec.ofNat model.exponentBits 1 := by
    rw [← BitVec.toNat_inj]
    simp [BitVec.neg_one_eq_allOnes, Format.topField, Format.ofModel, powerOfTwo]
  have hnonzero : ∀ {n : ℕ} {field : BitVec n}, field ≠ BitVec.ofNat n 0 → field.toNat ≠ 0 :=
    fun hfield h => hfield (BitVec.eq_of_toNat_eq (h.trans BitVec.toNat_zero.symm))
  have hunpacks := unpacks word
  unfold Format.decode
  rw [← toNat_unpackMantissa, ← toNat_unpackExponent, ← isMinus_unpackSign]
  dsimp only
  generalize UnpackedFloat.unpack model word = unpacked at hunpacks ⊢
  cases hunpacks with
  | infinity htop hzero =>
      rw [if_pos (htopField.mpr htop), if_pos (by rw [hzero, BitVec.toNat_zero]),
        Parts.ofUnpacked_infinity]
  | notANumber htop hmantissa =>
      rw [if_pos (htopField.mpr htop), if_neg (hnonzero hmantissa),
        Parts.ofUnpacked_notANumber]
  | zero htop hbottom hzero =>
      rw [if_neg (mt htopField.mp htop), hbottom, hzero, BitVec.toNat_zero, if_pos rfl,
        BitVec.toNat_zero, Parts.ofUnpacked_zero]
  | subnormal htop hbottom hmantissa hpos =>
      rw [if_neg (mt htopField.mp htop), if_pos (by rw [hbottom, BitVec.toNat_zero]),
        Parts.ofUnpacked_finite, hleast, hbottom, BitVec.toNat_zero]
      congr 1
      omega
  | normal htop hbottom hpos =>
      rw [if_neg (mt htopField.mp htop), if_neg (hnonzero hbottom),
        Parts.ofUnpacked_finite, toNat_leading_append, hleast]
      congr 1
      omega

end NoiseShader.Number
