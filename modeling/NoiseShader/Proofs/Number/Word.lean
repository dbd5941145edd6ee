import NoiseShader.Number.Binary32
import NoiseShader.Proofs.Number.Rounding
import NoiseShader.Proofs.Number.Unpacked
import Mathlib.Tactic

/-!
# Words of single precision numbers

A number is determined by its word, and a finite number by the sign, significand
and exponent that the word has as fields.  The word of the absolute value is the
word without the sign.  A difference is the sum with the opposite number.

Every sign, significand and exponent that a word can hold are those of a number,
greater exponents give an infinity, and there is one number that is not a number.
-/

namespace NoiseShader.Number.Binary32

open Float.Model (UnpackedFloat)
open Float.Model.UnpackedFloat (Sign packComponents packedInfinity packedNaN packedZero
  unpackExponent unpackMantissa unpackSign)

abbrev model : Float.Model.Format := Float.Model.Format.binary32

theorem packComponents_toNat (sign : Sign) (exponent : BitVec 8) (mantissa : BitVec 23) :
    (packComponents model sign exponent mantissa).toNat =
      sign.toBitVec.toNat * 2 ^ 31 + exponent.toNat * 2 ^ 23 + mantissa.toNat := by
  simp only [packComponents, BitVec.toNat_append]
  rw [← Nat.shiftLeft_add_eq_or_of_lt exponent.isLt, ← Nat.shiftLeft_add_eq_or_of_lt mantissa.isLt]
  simp only [Nat.shiftLeft_eq]
  ring

theorem unpackMantissa_toNat (word : BitVec 32) :
    (@unpackMantissa model word).toNat = word.toNat % 2 ^ 23 := by
  exact @toNat_unpackMantissa model word

theorem unpackExponent_toNat (word : BitVec 32) :
    (@unpackExponent model word).toNat = word.toNat / 2 ^ 23 % 2 ^ 8 := by
  rw [toNat_unpackExponent, Nat.shiftRight_eq_div_pow]
  rfl

theorem unpackSign_toNat (word : BitVec 32) :
    (@unpackSign model word).toNat = word.toNat / 2 ^ 31 := by
  have hword := word.isLt
  rw [toNat_unpackSign, Nat.shiftRight_eq_div_pow]
  change word.toNat / 2 ^ 31 % 2 = word.toNat / 2 ^ 31
  omega

/-- An unpacked number with another sign; a NaN has none. -/
def withSign (sign : Sign) : UnpackedFloat → UnpackedFloat
  | .notANumber => .notANumber
  | .infinity _ => .infinity sign
  | .zero _ => .zero sign
  | .finite _ mantissa exponent hpos => .finite sign mantissa exponent hpos

/-- A word that is no NaN, unpacked and packed with another sign. -/
theorem pack_withSign_unpack (sign : Sign) (word : BitVec 32)
    (hnumber : @unpackExponent model word = -1#8 → @unpackMantissa model word = 0#23) :
    UnpackedFloat.pack model (withSign sign (UnpackedFloat.unpack model word)) =
      packComponents model sign (@unpackExponent model word) (@unpackMantissa model word) := by
  have hmantissa := (@unpackMantissa model word).isLt
  have hexponent := (@unpackExponent model word).isLt
  simp only [model] at hmantissa hexponent
  have hunpacks := @unpacks model word
  generalize UnpackedFloat.unpack model word = unpacked at hunpacks ⊢
  cases hunpacks with
  | infinity htop hzero =>
      rw [htop, hzero]
      rfl
  | notANumber htop hmantissa => exact absurd (hnumber htop) hmantissa
  | zero htop hbottom hzero =>
      rw [hbottom, hzero]
      rfl
  | subnormal htop hbottom hmantissa' hpos =>
      have hlog : (@unpackMantissa model word).toNat.log2 < 23 :=
        (Nat.log2_lt hpos.ne').mpr hmantissa
      change UnpackedFloat.pack model (.finite sign _ _ _) = _
      unfold UnpackedFloat.pack
      dsimp only
      rw [if_neg, if_neg]
      · rw [BitVec.ofNat_toNat, hbottom]
        simp
      · show ¬ _ = 24
        omega
      · rw [hbottom]
        decide
  | normal htop hbottom hpos =>
      have htop' : (@unpackExponent model word).toNat ≠ 255 := by
        intro h
        exact htop (BitVec.eq_of_toNat_eq h)
      have happend : (1#1 ++ @unpackMantissa model word).toNat =
          2 ^ 23 + (@unpackMantissa model word).toNat := by
        rw [BitVec.toNat_append, ← Nat.shiftLeft_add_eq_or_of_lt (BitVec.isLt _)]
        rfl
      have hlog : (1#1 ++ @unpackMantissa model word).toNat.log2 = 23 := by
        rw [happend, Nat.log2_eq_iff (by omega)]
        omega
      have hbiased : ((((@unpackExponent model word).toNat : Int) -
          ((model.exponentBias : Nat) + (model.mantissaBitsWithoutImplicit : Nat)) +
          (model.exponentBias : Nat) + (model.mantissaBitsWithoutImplicit : Nat))).toNat =
          (@unpackExponent model word).toNat := by
        omega
      change UnpackedFloat.pack model (.finite sign _ _ _) = _
      unfold UnpackedFloat.pack
      dsimp only
      rw [hbiased, if_neg, if_pos]
      · rw [BitVec.ofNat_toNat, BitVec.setWidth_eq, happend]
        congr 1
        apply BitVec.eq_of_toNat_eq
        rw [BitVec.toNat_ofNat]
        simp only [model]
        omega
      · rw [hlog]
        rfl
      · show ¬ (2 ^ 8 ≤ _)
        omega

theorem packComponents_unpackSign (word : BitVec 32) :
    packComponents model (Sign.ofBitVec (@unpackSign model word)) (@unpackExponent model word)
      (@unpackMantissa model word) = word := by
  have hword := word.isLt
  have hsign : (Sign.ofBitVec (@unpackSign model word)).toBitVec = @unpackSign model word := by
    generalize @unpackSign model word = bit
    revert bit
    decide
  apply BitVec.eq_of_toNat_eq
  rw [packComponents_toNat, hsign, unpackSign_toNat, unpackExponent_toNat, unpackMantissa_toNat]
  omega

theorem withSign_unpackSign (word : BitVec 32) :
    withSign (Sign.ofBitVec (@unpackSign model word)) (UnpackedFloat.unpack model word) =
      UnpackedFloat.unpack model word := by
  have hunpacks := @unpacks model word
  generalize UnpackedFloat.unpack model word = unpacked at hunpacks ⊢
  cases hunpacks <;> rfl

theorem pack_unpack (word : BitVec 32)
    (hnumber : @unpackExponent model word = -1#8 → @unpackMantissa model word = 0#23) :
    UnpackedFloat.pack model (UnpackedFloat.unpack model word) = word := by
  rw [← withSign_unpackSign, pack_withSign_unpack _ _ hnumber, packComponents_unpackSign]

theorem ofBits_toBits (x : Float32) : Float32.ofBits x.toBits = x := by
  obtain ⟨⟨bits, hvalid⟩⟩ := x
  have hpack : UnpackedFloat.pack model (UnpackedFloat.unpack model bits.toBitVec) =
      bits.toBitVec := by
    by_cases hnumber : @unpackExponent model bits.toBitVec = -1#8 →
        @unpackMantissa model bits.toBitVec = 0#23
    · exact pack_unpack _ hnumber
    · rw [Classical.not_imp] at hnumber
      have hnan : UnpackedFloat.unpack model bits.toBitVec = .notANumber := by
        unfold UnpackedFloat.unpack
        dsimp only
        rw [if_pos hnumber.1, if_neg hnumber.2]
      rw [hnan]
      exact (hvalid.eq_packedNaN hnumber.1 hnumber.2).symm
  unfold Float32.ofBits Float32.toBits Float32.Model.ofBits Float32.Model.pack
  congr 2
  exact congrArg UInt32.ofBitVec hpack

theorem ofWord_toBits (x : Float32) : ofWord x.toBits.toNat = x := by
  unfold ofWord
  rw [UInt32.ofNat_toNat]
  exact ofBits_toBits x

/-- The fields of a single precision word, as quotients and remainders. -/
theorem decode_eq (word : ℕ) :
    Format.binary32.decode word =
      if word / 2 ^ 23 % 2 ^ 8 = 255 then
        if word % 2 ^ 23 = 0 then .infinite (word / 2 ^ 31 % 2 == 1) else .notANumber
      else if word / 2 ^ 23 % 2 ^ 8 = 0 then
        .finite (word / 2 ^ 31 % 2 == 1) (word % 2 ^ 23) (-149)
      else
        .finite (word / 2 ^ 31 % 2 == 1) (2 ^ 23 + word % 2 ^ 23)
          (-149 + ((word / 2 ^ 23 % 2 ^ 8 : ℕ) : ℤ) - 1) := by
  unfold Format.decode
  simp only [Nat.shiftRight_eq_div_pow]
  rfl

theorem leadingBit_eq : Format.binary32.leadingBit = 2 ^ 23 := rfl

theorem leastExponent_eq : Format.binary32.leastExponent = -149 := rfl

theorem signWord_eq (negative : Bool) :
    Format.binary32.signWord negative = if negative = true then 2 ^ 31 else 0 := rfl

theorem encode_eq (negative : Bool) (significand : ℕ) (exponent : ℤ) :
    Format.binary32.encode negative significand exponent =
      if significand < 2 ^ 23 then Format.binary32.signWord negative + significand
      else if ((exponent - -149).toNat + 1) * 2 ^ 23 + (significand - 2 ^ 23) < 255 * 2 ^ 23 then
        Format.binary32.signWord negative +
          (((exponent - -149).toNat + 1) * 2 ^ 23 + (significand - 2 ^ 23))
      else Format.binary32.infinityWord negative := rfl

theorem encode_decode {word significand : ℕ} {negative : Bool} {exponent : ℤ}
    (hword : word < 2 ^ 32)
    (hparts : Format.binary32.decode word = .finite negative significand exponent) :
    Format.binary32.Canonical significand exponent ∧ exponent ≤ 104 ∧
      Format.binary32.encode negative significand exponent = word := by
  rw [decode_eq] at hparts
  split_ifs at hparts with hinfinite hnumber hsubnormal
  · injection hparts with hnegative hsignificand hexponent
    subst hnegative hsignificand hexponent
    refine ⟨⟨by rw [leadingBit_eq]; omega, by rw [leastExponent_eq],
      Or.inr leastExponent_eq.symm⟩, by norm_num, ?_⟩
    rw [encode_eq, if_pos (by omega), signWord_eq]
    split_ifs with hs <;> simp at hs <;> omega
  · injection hparts with hnegative hsignificand hexponent
    subst hnegative hsignificand hexponent
    refine ⟨⟨by rw [leadingBit_eq]; omega, by rw [leastExponent_eq]; omega,
      Or.inl (by rw [leadingBit_eq]; omega)⟩, by omega, ?_⟩
    have hfield : (-149 + ((word / 2 ^ 23 % 2 ^ 8 : ℕ) : ℤ) - 1 - -149).toNat + 1 =
        word / 2 ^ 23 % 2 ^ 8 := by omega
    rw [encode_eq, hfield, if_neg (by omega), if_pos (by omega), signWord_eq]
    split_ifs with hs <;> simp at hs <;> omega

theorem canonical_of_parts {x : Float32} {negative : Bool} {significand : ℕ} {exponent : ℤ}
    (hparts : parts x = .finite negative significand exponent) :
    Format.binary32.Canonical significand exponent ∧ exponent ≤ 104 :=
  let h := encode_decode x.toBits.toNat_lt hparts
  ⟨h.1, h.2.1⟩

theorem toBits_of_parts {x : Float32} {negative : Bool} {significand : ℕ} {exponent : ℤ}
    (hparts : parts x = .finite negative significand exponent) :
    x.toBits.toNat = Format.binary32.encode negative significand exponent :=
  (encode_decode x.toBits.toNat_lt hparts).2.2.symm

theorem ofWord_encode_of_parts {x : Float32} {negative : Bool} {significand : ℕ} {exponent : ℤ}
    (hparts : parts x = .finite negative significand exponent) :
    ofWord (Format.binary32.encode negative significand exponent) = x := by
  rw [← toBits_of_parts hparts]
  exact ofWord_toBits x

theorem decode_magnitude {word significand : ℕ} {negative : Bool} {exponent : ℤ}
    (hparts : Format.binary32.decode word = .finite negative significand exponent) :
    Format.binary32.decode (word % 2 ^ 31) = .finite false significand exponent := by
  have hsign : word % 2 ^ 31 / 2 ^ 31 % 2 = 0 := by omega
  have hfield : word % 2 ^ 31 / 2 ^ 23 % 2 ^ 8 = word / 2 ^ 23 % 2 ^ 8 := by omega
  have hfraction : word % 2 ^ 31 % 2 ^ 23 = word % 2 ^ 23 := by omega
  rw [decode_eq] at hparts ⊢
  rw [hsign, hfield, hfraction]
  split_ifs at hparts ⊢ <;> injection hparts <;> subst_vars <;> rfl

theorem abs_eq_withSign (number : UnpackedFloat) : number.abs = withSign .positive number := by
  cases number <;> rfl

theorem toBits_abs {x : Float32} {negative : Bool} {significand : ℕ} {exponent : ℤ}
    (hparts : parts x = .finite negative significand exponent) :
    x.abs.toBits.toNat = x.toBits.toNat % 2 ^ 31 := by
  have hnumber : @unpackExponent model x.toBits.toBitVec = -1#8 →
      @unpackMantissa model x.toBits.toBitVec = 0#23 := by
    intro htop
    have htopNat : x.toBits.toNat / 2 ^ 23 % 2 ^ 8 = 255 := by
      rw [← UInt32.toNat_toBitVec, ← unpackExponent_toNat, htop]
      rfl
    unfold parts at hparts
    rw [decode_eq, if_pos htopNat] at hparts
    split_ifs at hparts
  have hbits : x.abs.toBits.toBitVec =
      UnpackedFloat.pack model (UnpackedFloat.unpack model x.toBits.toBitVec).abs := rfl
  rw [← UInt32.toNat_toBitVec, hbits, abs_eq_withSign, pack_withSign_unpack _ _ hnumber,
    packComponents_toNat, unpackExponent_toNat, unpackMantissa_toNat]
  have hzero : Sign.positive.toBitVec.toNat = 0 := rfl
  rw [hzero, UInt32.toNat_toBitVec]
  omega

theorem parts_abs {x : Float32} {negative : Bool} {significand : ℕ} {exponent : ℤ}
    (hparts : parts x = .finite negative significand exponent) :
    parts x.abs = .finite false significand exponent := by
  unfold parts
  rw [toBits_abs hparts]
  exact decode_magnitude hparts

theorem abs_eq_self {x : Float32} {significand : ℕ} {exponent : ℤ}
    (hparts : parts x = .finite false significand exponent) : x.abs = x := by
  rw [← ofWord_encode_of_parts (parts_abs hparts), ofWord_encode_of_parts hparts]

theorem isNegative_of_parts {x : Float32} {negative : Bool} {significand : ℕ} {exponent : ℤ}
    (hparts : parts x = .finite negative significand exponent) : isNegative x = negative := by
  have hlt := x.toBits.toNat_lt
  have hshift : (x.toBits >>> 31 == 1) = (x.toBits.toNat / 2 ^ 31 % 2 == 1) := by
    rw [Bool.eq_iff_iff, beq_iff_eq, beq_iff_eq, ← UInt32.toNat_inj, UInt32.toNat_shiftRight,
      Nat.shiftRight_eq_div_pow]
    change x.toBits.toNat / 2 ^ 31 = 1 ↔ _
    omega
  unfold isNegative
  rw [hshift]
  unfold parts at hparts
  rw [decode_eq] at hparts
  split_ifs at hparts
  · injection hparts
  · injection hparts

/-! ## Words of given numbers -/

/-- A word that is no NaN is the word of the number it gives. -/
theorem toBits_ofWord {word : ℕ} (hword : word < 2 ^ 32)
    (hnumber : word / 2 ^ 23 % 2 ^ 8 = 255 → word % 2 ^ 23 = 0) :
    (ofWord word).toBits.toNat = word := by
  have hbits : (ofWord word).toBits.toBitVec =
      UnpackedFloat.pack model (UnpackedFloat.unpack model (UInt32.ofNat word).toBitVec) := rfl
  have hsame : (UInt32.ofNat word).toBitVec.toNat = word := by
    rw [UInt32.toNat_toBitVec, UInt32.toNat_ofNat', Nat.mod_eq_of_lt hword]
  have hfields : @unpackExponent model (UInt32.ofNat word).toBitVec = -1#8 →
      @unpackMantissa model (UInt32.ofNat word).toBitVec = 0#23 := by
    intro htop
    have hfield : word / 2 ^ 23 % 2 ^ 8 = 255 := by
      have h := congrArg BitVec.toNat htop
      rwa [unpackExponent_toNat, hsame] at h
    apply BitVec.eq_of_toNat_eq
    rw [unpackMantissa_toNat, hsame, hnumber hfield]
    rfl
  rw [← UInt32.toNat_toBitVec, hbits, pack_unpack _ hfields, hsame]

theorem parts_ofWord {word : ℕ} (hword : word < 2 ^ 32)
    (hnumber : Format.binary32.decode word ≠ .notANumber) :
    parts (ofWord word) = Format.binary32.decode word := by
  unfold parts
  rw [toBits_ofWord hword]
  intro hfield
  by_contra hfraction
  rw [decode_eq, if_pos hfield, if_neg hfraction] at hnumber
  exact hnumber rfl

theorem decode_infinityWord (negative : Bool) :
    Format.binary32.decode (Format.binary32.infinityWord negative) = .infinite negative := by
  cases negative <;> decide

theorem fields_of_word (negative : Bool) {field fraction : ℕ} (hfield : field < 2 ^ 8)
    (hfraction : fraction < 2 ^ 23) :
    let word := Format.binary32.signWord negative + (field * 2 ^ 23 + fraction)
    word < 2 ^ 32 ∧ (word / 2 ^ 31 % 2 == 1) = negative ∧ word / 2 ^ 23 % 2 ^ 8 = field ∧
      word % 2 ^ 23 = fraction := by
  cases negative <;> simp only [signWord_eq, Bool.false_eq_true, if_true, if_false, beq_iff_eq,
    beq_eq_false_iff_ne] <;> omega

/-- The word of a number has the number as its fields. -/
theorem decode_encode {significand : ℕ} {exponent : ℤ}
    (hcanonical : Format.binary32.Canonical significand exponent) (hhigh : exponent ≤ 104)
    (negative : Bool) :
    Format.binary32.encode negative significand exponent < 2 ^ 32 ∧
      Format.binary32.decode (Format.binary32.encode negative significand exponent) =
        .finite negative significand exponent := by
  have hsmall : significand < 2 * 2 ^ 23 := hcanonical.significand_lt
  have hleast : -149 ≤ exponent := hcanonical.least_le
  have hfull : 2 ^ 23 ≤ significand ∨ exponent = -149 := hcanonical.full
  rw [encode_eq]
  by_cases hsubnormal : significand < 2 ^ 23
  · have hword := fields_of_word negative (show 0 < 2 ^ 8 by norm_num) hsubnormal
    simp only [Nat.zero_mul, Nat.zero_add] at hword
    obtain ⟨hlt, hsign, hfield, hfraction⟩ := hword
    rw [if_pos hsubnormal, decode_eq, hsign, hfield, hfraction]
    refine ⟨hlt, ?_⟩
    have hexponent : exponent = -149 := by omega
    simp [hexponent]
  · have hroom :
        ((exponent - -149).toNat + 1) * 2 ^ 23 + (significand - 2 ^ 23) < 255 * 2 ^ 23 := by
      omega
    obtain ⟨hlt, hsign, hfield, hfraction⟩ := fields_of_word negative
      (show (exponent - -149).toNat + 1 < 2 ^ 8 by omega)
      (show significand - 2 ^ 23 < 2 ^ 23 by omega)
    rw [if_neg hsubnormal, if_pos hroom, decode_eq, hsign, hfield, hfraction]
    refine ⟨hlt, ?_⟩
    rw [if_neg (by omega), if_neg (by omega)]
    have hsignificand : 2 ^ 23 + (significand - 2 ^ 23) = significand := by omega
    have hexponent : -149 + (((exponent - -149).toNat + 1 : ℕ) : ℤ) - 1 = exponent := by omega
    rw [hsignificand, hexponent]

theorem parts_ofWord_encode {significand : ℕ} {exponent : ℤ}
    (hcanonical : Format.binary32.Canonical significand exponent) (hhigh : exponent ≤ 104)
    (negative : Bool) :
    parts (ofWord (Format.binary32.encode negative significand exponent)) =
      .finite negative significand exponent := by
  obtain ⟨hlt, hdecode⟩ := decode_encode hcanonical hhigh negative
  rw [parts_ofWord hlt (by simp [hdecode]), hdecode]

/-- Beyond the greatest exponent there are only infinities. -/
theorem encode_of_lt {significand : ℕ} {exponent : ℤ}
    (hcanonical : Format.binary32.Canonical significand exponent) (hhigh : 104 < exponent)
    (negative : Bool) :
    Format.binary32.encode negative significand exponent =
      Format.binary32.infinityWord negative := by
  have hfull : 2 ^ 23 ≤ significand ∨ exponent = -149 := hcanonical.full
  rw [encode_eq, if_neg (by omega), if_neg (by omega)]

theorem parts_infinity (negative : Bool) :
    parts (ofWord (Format.binary32.infinityWord negative)) = .infinite negative := by
  have hlt : Format.binary32.infinityWord negative < 2 ^ 32 := by cases negative <;> decide
  have hdecode := decode_infinityWord negative
  rw [parts_ofWord hlt (by simp [hdecode]), hdecode]

theorem eq_infinity_of_parts {x : Float32} {negative : Bool}
    (hparts : parts x = .infinite negative) :
    x = ofWord (Format.binary32.infinityWord negative) := by
  have hlt := x.toBits.toNat_lt
  have hword : x.toBits.toNat = Format.binary32.infinityWord negative := by
    have hinfinity : Format.binary32.infinityWord negative =
        (if negative then 2 ^ 31 else 0) + 255 * 2 ^ 23 := rfl
    unfold parts at hparts
    rw [decode_eq] at hparts
    split_ifs at hparts with hfield hfraction
    injection hparts with hsign
    subst hsign
    rw [hinfinity]
    split_ifs with hbit <;> simp only [beq_iff_eq] at hbit <;> omega
  rw [← hword, ofWord_toBits]

theorem eq_notANumber_of_parts {x : Float32} (hparts : parts x = .notANumber) :
    x = notANumber := by
  have hpacked : ∀ y : Float32, parts y = .notANumber → y.toBits.toBitVec = packedNaN model := by
    rintro ⟨⟨bits, hvalid⟩⟩ hnan
    have hfields : bits.toNat / 2 ^ 23 % 2 ^ 8 = 255 ∧ bits.toNat % 2 ^ 23 ≠ 0 := by
      change Format.binary32.decode bits.toNat = .notANumber at hnan
      rw [decode_eq] at hnan
      split_ifs at hnan with hfield hfraction
      exact ⟨hfield, hfraction⟩
    apply hvalid.eq_packedNaN
    · apply BitVec.eq_of_toNat_eq
      rw [unpackExponent_toNat]
      exact hfields.1
    · intro hzero
      have h := congrArg BitVec.toNat hzero
      rw [unpackMantissa_toNat] at h
      exact hfields.2 h
  have hbits : x.toBits = notANumber.toBits := by
    rw [← UInt32.toBitVec_inj, hpacked x hparts, hpacked notANumber (by decide)]
  rw [← ofBits_toBits x, hbits, ofBits_toBits]

/-! ## Differences -/

theorem sign_apply_neg (sign : Sign) (n : ℤ) : (-sign).apply n = -sign.apply n := by
  cases sign with
  | positive => rfl
  | negative => exact (neg_neg n).symm

theorem unpacked_sub_eq (format : Float.Model.Format) (x y : UnpackedFloat) :
    UnpackedFloat.sub format x y = UnpackedFloat.add format x y.neg := by
  cases x with
  | finite sign significand exponent hpos =>
      cases y with
      | finite sign' significand' exponent' hpos' =>
          unfold UnpackedFloat.sub UnpackedFloat.add UnpackedFloat.neg
          dsimp only
          rw [sign_apply_neg, sub_eq_add_neg]
      | _ => rfl
  | _ => cases y <;> rfl

theorem sub_one_eq (x : Float32) : x - 1 = x + -1 := by
  have hopposite : (-1 : Float32).toModel.unpack = (1 : Float32).toModel.unpack.neg := rfl
  change Float32.ofModel (Float32.Model.pack _) = Float32.ofModel (Float32.Model.pack _)
  rw [hopposite, unpacked_sub_eq]

end NoiseShader.Number.Binary32
