import NoiseShader.Proofs.Number.Order
import Mathlib.Tactic

/-!
# Rounded arithmetic

The core library computes on unpacked numbers and keeps of what it cuts off only
two bits, the first one and whether any other was set.  These are enough to round:
every sum, difference, product and quotient is the number nearest to the exact
result, and `Format.roundRatio` finds the same one.
-/

namespace NoiseShader.Number

open Float.Model (UnpackedFloat totalExponent)
open Float.Model.UnpackedFloat (Accuracy ExtendedMantissa Sign accuracyOfFraction divCore
  roundWithAccuracy shiftToExponent shiftToTargetExponent)

/-! ## What is left of the bits that were cut off -/

/-- A significand with its two further bits describes the numbers that it can come from. -/
inductive Describes : ExtendedMantissa → ℚ → Prop
  | exact {whole : ℕ} {number : ℚ} (hnumber : number = whole) :
      Describes ⟨whole, false, false⟩ number
  | below {whole : ℕ} {number : ℚ} (hlow : (whole : ℚ) < number) (hhigh : number < whole + 1 / 2) :
      Describes ⟨whole, false, true⟩ number
  | middle {whole : ℕ} {number : ℚ} (hnumber : number = whole + 1 / 2) :
      Describes ⟨whole, true, false⟩ number
  | above {whole : ℕ} {number : ℚ} (hlow : (whole + 1 / 2 : ℚ) < number)
      (hhigh : number < whole + 1) : Describes ⟨whole, true, true⟩ number

namespace Describes

variable {extended : ExtendedMantissa} {number : ℚ}

theorem shiftRightOne (hdescribes : Describes extended number) :
    Describes extended.shiftRightOne (number / 2) := by
  obtain ⟨whole, roundBit, stickyBit⟩ := extended
  have hhalf : ((whole / 2 : ℕ) : ℚ) = whole / 2 - ((whole % 2 : ℕ) : ℚ) / 2 := by
    have hsplit : (2 * (whole / 2 : ℕ) + (whole % 2 : ℕ) : ℚ) = whole := by
      exact_mod_cast Nat.div_add_mod whole 2
    linarith
  rcases Nat.mod_two_eq_zero_or_one whole with hbit | hbit
  · rw [hbit, Nat.cast_zero] at hhalf
    simp only [ExtendedMantissa.shiftRightOne, hbit]
    cases hdescribes with
    | exact hnumber => exact .exact (by rw [hhalf, hnumber]; ring)
    | below hlow hhigh => exact .below (by linarith) (by linarith)
    | middle hnumber => exact .below (by linarith) (by linarith)
    | above hlow hhigh => exact .below (by linarith) (by linarith)
  · rw [hbit, Nat.cast_one] at hhalf
    simp only [ExtendedMantissa.shiftRightOne, hbit]
    cases hdescribes with
    | exact hnumber => exact .middle (by rw [hhalf, hnumber]; ring)
    | below hlow hhigh => exact .above (by linarith) (by linarith)
    | middle hnumber => exact .above (by linarith) (by linarith)
    | above hlow hhigh => exact .above (by linarith) (by linarith)

theorem shiftRight (hdescribes : Describes extended number) (count : ℕ) :
    Describes (extended >>> count) (number / 2 ^ count) := by
  induction count with
  | zero =>
      rw [pow_zero, div_one]
      exact hdescribes
  | succ count ih =>
      rw [pow_succ, ← div_div]
      exact ih.shiftRightOne

theorem bounds (hdescribes : Describes extended number) :
    (extended.mantissa : ℚ) ≤ number ∧ number < extended.mantissa + 1 := by
  cases hdescribes with
  | exact hnumber => exact ⟨by linarith, by linarith⟩
  | below hlow hhigh => exact ⟨by linarith, by linarith⟩
  | middle hnumber => exact ⟨by linarith, by linarith⟩
  | above hlow hhigh => exact ⟨by linarith, by linarith⟩

/-- The rounded significand is nearest to every number that was described, and even at a tie. -/
theorem near (hdescribes : Describes extended number) :
    (extended.roundedMantissa : ℚ) - 1 / 2 ≤ number ∧
      number ≤ extended.roundedMantissa + 1 / 2 ∧
      (number = extended.roundedMantissa - 1 / 2 ∨
        number = extended.roundedMantissa + 1 / 2 → extended.roundedMantissa % 2 = 0) := by
  cases hdescribes with
  | @exact whole _ hnumber =>
      simp only [ExtendedMantissa.roundedMantissa, ExtendedMantissa.accuracy,
        Accuracy.roundToNearestEven]
      refine ⟨by linarith, by linarith, ?_⟩
      rintro (htie | htie) <;> linarith
  | @below whole _ hlow hhigh =>
      simp only [ExtendedMantissa.roundedMantissa, ExtendedMantissa.accuracy,
        Accuracy.roundToNearestEven]
      refine ⟨by linarith, by linarith, ?_⟩
      rintro (htie | htie) <;> linarith
  | @middle whole _ hnumber =>
      simp only [ExtendedMantissa.roundedMantissa, ExtendedMantissa.accuracy,
        Accuracy.roundToNearestEven]
      rcases Nat.mod_two_eq_zero_or_one whole with hbit | hbit
      · rw [hbit, Nat.add_zero]
        exact ⟨by linarith, by linarith, fun _ => hbit⟩
      · rw [hbit, Nat.cast_add, Nat.cast_one]
        exact ⟨by linarith, by linarith, fun _ => by omega⟩
  | @above whole _ hlow hhigh =>
      simp only [ExtendedMantissa.roundedMantissa, ExtendedMantissa.accuracy,
        Accuracy.roundToNearestEven, Nat.cast_add, Nat.cast_one]
      refine ⟨by linarith, by linarith, ?_⟩
      rintro (htie | htie) <;> linarith

end Describes

/-! ## Rounding -/

namespace Binary32

theorem targetExponent_eq (total : ℤ) : model.targetExponent total = max (total - 24) (-149) := rfl

/-- The shift that brings a significand to the exponent of its format. -/
theorem shiftToTargetExponent_eq (significand : ℕ) (exponent : ℤ) (accuracy : Accuracy)
    {target : ℤ} (htarget : target = max (significand.log2 + 1 + exponent - 24) (-149))
    (hle : exponent ≤ target) :
    shiftToTargetExponent model significand exponent accuracy =
      (ExtendedMantissa.ofMantissaAndAccuracy significand accuracy >>> (target - exponent).toNat,
        target) := by
  have hsum : exponent + (target - exponent).toNat = target := by omega
  rw [shiftToTargetExponent, targetExponent_eq, totalExponent, ← htarget, shiftToExponent]
  simp only [hsum]

/-- A significand that fits at its exponent stays as it is. -/
theorem shiftToTargetExponent_of_fits {significand : ℕ} {exponent : ℤ}
    (hcanonical : Format.binary32.Canonical significand exponent) :
    shiftToTargetExponent model significand exponent .exact =
      (⟨significand, false, false⟩, exponent) := by
  have hleast : -149 ≤ exponent := hcanonical.least_le
  have hlog : significand.log2 ≤ 23 := by
    by_cases hzero : significand = 0
    · subst hzero
      exact Nat.zero_le 23
    · exact Nat.lt_succ_iff.mp ((Nat.log2_lt hzero).mpr hcanonical.significand_lt)
  have hamount : (max (significand.log2 + 1 + exponent - 24) (-149) - exponent).toNat = 0 := by
    omega
  rw [shiftToTargetExponent, targetExponent_eq, totalExponent, shiftToExponent]
  simp only [hamount, Nat.cast_zero, add_zero]
  rfl

/-- A significand that has filled up while rounding gives way to the next exponent. -/
theorem shiftToTargetExponent_filled {exponent : ℤ} (hleast : -149 ≤ exponent) :
    shiftToTargetExponent model (2 ^ 24) exponent .exact =
      (⟨2 ^ 23, false, false⟩, exponent + 1) := by
  have hlog : (2 ^ 24).log2 = 24 := rfl
  have htarget : exponent + 1 = max (((2 ^ 24).log2 : ℤ) + 1 + exponent - 24) (-149) := by
    rw [hlog]
    omega
  have hamount : (exponent + 1 - exponent).toNat = 1 := by omega
  rw [shiftToTargetExponent_eq _ _ _ htarget (by omega), hamount]
  rfl

def ofUnpacked (number : UnpackedFloat) : Float32 := ⟨Float32.Model.pack number⟩

theorem ofUnpacked_eq (number : UnpackedFloat) :
    ofUnpacked number = ofWord (UnpackedFloat.pack model number).toNat :=
  (ofWord_toBits (ofUnpacked number)).symm

theorem ofUnpacked_zero (sign : Sign) :
    ofUnpacked (.zero sign) = ofWord (Format.binary32.signWord (isMinus sign)) := by
  cases sign <;> rfl

theorem ofUnpacked_finite (sign : Sign) {significand : ℕ} {exponent : ℤ} (hpos : 0 < significand)
    (hcanonical : Format.binary32.Canonical significand exponent) :
    ofUnpacked (.finite sign significand exponent hpos) =
      ofWord (Format.binary32.encode (isMinus sign) significand exponent) := by
  have hleast : -149 ≤ exponent := hcanonical.least_le
  have hsmall : significand < 2 * 2 ^ 23 := hcanonical.significand_lt
  have hfull : 2 ^ 23 ≤ significand ∨ exponent = -149 := hcanonical.full
  have hbiased : (exponent + model.exponentBias + model.mantissaBitsWithoutImplicit).toNat =
      (exponent + 150).toNat := by
    change (exponent + (127 : ℕ) + (23 : ℕ)).toNat = _
    omega
  have hsign : sign.toBitVec.toNat * 2 ^ 31 = Format.binary32.signWord (isMinus sign) := by
    cases sign <;> rfl
  rw [ofUnpacked_eq]
  congr 1
  unfold UnpackedFloat.pack
  dsimp only
  rw [hbiased]
  split_ifs with hhigh hlength
  · change 2 ^ 8 ≤ _ at hhigh
    rw [encode_of_lt hcanonical (by omega)]
    cases sign <;> rfl
  · change ¬ 2 ^ 8 ≤ _ at hhigh
    have hlead : 2 ^ 23 ≤ significand := by
      have hlog : significand.log2 = 23 := by
        change significand.log2 + 1 = 24 at hlength
        omega
      exact hlog ▸ Nat.log2_self_le hpos.ne'
    rw [packComponents_toNat, hsign, encode_eq, if_neg (by omega), if_pos (by omega),
      BitVec.toNat_ofNat, BitVec.toNat_ofNat]
    omega
  · have hlow : significand < 2 ^ 23 := by
      have hlog : significand.log2 ≠ 23 := by
        intro heq
        exact hlength (by rw [heq]; rfl)
      have hlt : significand.log2 < 24 := (Nat.log2_lt hpos.ne').mpr hsmall
      exact (Nat.log2_lt hpos.ne').mp (by omega)
    rw [packComponents_toNat, hsign, encode_eq, if_pos hlow, BitVec.toNat_ofNat,
      BitVec.toNat_ofNat]
    omega

theorem ofUnpacked_rounded (sign : Sign) {significand : ℕ} {exponent : ℤ}
    (hcanonical : Format.binary32.Canonical significand exponent) :
    ofUnpacked (if h : significand = 0 then .zero sign
      else .finite sign significand exponent (Nat.pos_of_ne_zero h)) =
        ofWord (Format.binary32.encode (isMinus sign) significand exponent) := by
  by_cases hzero : significand = 0
  · subst hzero
    rw [dif_pos rfl, ofUnpacked_zero, encode_eq, if_pos (by norm_num), Nat.add_zero]
  · rw [dif_neg hzero]
    exact ofUnpacked_finite sign (Nat.pos_of_ne_zero hzero) hcanonical

/-- The number nearest to a rational number that is not negative, with a sign. -/
def nearest (negative : Bool) (number : ℚ) : Float32 :=
  ofWord (Format.binary32.roundRatio negative number.num.natAbs number.den)

theorem natAbs_num_div_den {number : ℚ} (hnonneg : 0 ≤ number) :
    (number.num.natAbs : ℚ) / number.den = number := by
  have hnum : ((number.num.natAbs : ℤ) : ℚ) = number.num := by
    rw [Int.natAbs_of_nonneg (Rat.num_nonneg.mpr hnonneg)]
  rw [← Int.cast_natCast number.num.natAbs, hnum, Rat.num_div_den]

theorem nearest_of_roundsTo {significand : ℕ} {exponent : ℤ} {number : ℚ}
    (hcanonical : Format.binary32.Canonical significand exponent) (hnonneg : 0 ≤ number)
    (hrounds : Format.binary32.RoundsTo significand exponent number) (negative : Bool) :
    nearest negative number = ofWord (Format.binary32.encode negative significand exponent) := by
  have hratio := natAbs_num_div_den hnonneg
  unfold nearest
  rw [Format.roundRatio_of_roundsTo hcanonical negative number.den_pos (by rwa [hratio])]

/-- A significand near to a number at the right exponent is the rounded one, or it has filled up. -/
theorem roundsTo_or_filled {significand : ℕ} {exponent : ℤ} {number : ℚ}
    (hleast : -149 ≤ exponent) (hstart : -149 < exponent → 2 ^ 23 * 2 ^ exponent ≤ number)
    (hend : number < 2 ^ 24 * 2 ^ exponent)
    (hbelow : ((significand : ℚ) - 1 / 2) * 2 ^ exponent ≤ number)
    (habove : number ≤ (significand + 1 / 2) * 2 ^ exponent)
    (htie : number = (significand - 1 / 2) * 2 ^ exponent ∨
      number = (significand + 1 / 2) * 2 ^ exponent → significand % 2 = 0) :
    (Format.binary32.Canonical significand exponent ∧
      Format.binary32.RoundsTo significand exponent number) ∨
    (significand = 2 ^ 24 ∧ Format.binary32.Canonical (2 ^ 23) (exponent + 1) ∧
      Format.binary32.RoundsTo (2 ^ 23) (exponent + 1) number) := by
  have hunit := Format.two_zpow_pos exponent
  have hlead : (Format.binary32.leadingBit : ℚ) = 2 ^ 23 := by
    rw [leadingBit_eq]
    norm_num
  have hstart' : Format.binary32.leastExponent < exponent →
      Format.binary32.leadingBit * 2 ^ exponent ≤ number := by
    rw [hlead]
    exact hstart
  rcases Nat.lt_or_ge significand (2 ^ 24) with hroom | hfilled
  · exact .inl ⟨Format.canonical_of_near hleast hstart' hroom habove,
      Format.roundsTo_of_near hstart' hbelow habove htie⟩
  · have hfull : (2 ^ 24 : ℚ) ≤ significand := by exact_mod_cast hfilled
    have hless : (significand : ℚ) - 1 / 2 < 2 ^ 24 :=
      lt_of_mul_lt_mul_right (hbelow.trans_lt hend) hunit.le
    have hequal : significand = 2 ^ 24 := by
      have hlt : (significand : ℚ) < 2 ^ 24 + 1 := by linarith
      exact le_antisymm (Nat.lt_succ_iff.mp (by exact_mod_cast hlt)) hfilled
    refine .inr ⟨hequal, @Format.roundsTo_of_filled .binary32 exponent number (by decide) hleast
      (le_trans ?_ hbelow) ?_⟩
    · rw [hlead]
      exact mul_le_mul_of_nonneg_right (by linarith) hunit.le
    · rw [hlead]
      linarith

theorem lt_of_log2_le {significand : ℕ} {exponent target : ℤ} {part : ℚ}
    (hpart : part < significand + 1) (htarget : significand.log2 + 1 + exponent - 24 ≤ target) :
    part * 2 ^ exponent < 2 ^ 24 * 2 ^ target := by
  have hlength : (significand + 1 : ℚ) ≤ 2 ^ (significand.log2 + 1) := by
    exact_mod_cast (Nat.lt_log2_self : significand < 2 ^ (significand.log2 + 1))
  calc
    part * 2 ^ exponent < 2 ^ (significand.log2 + 1) * 2 ^ exponent :=
      mul_lt_mul_of_pos_right (hpart.trans_le hlength) (Format.two_zpow_pos exponent)
    _ = 2 ^ (significand.log2 + 1 + exponent : ℤ) := by
      rw [← zpow_natCast, ← zpow_add₀ two_ne_zero]
      push_cast
      rfl
    _ ≤ 2 ^ (24 + target : ℤ) := zpow_le_zpow_right₀ one_le_two (by omega)
    _ = 2 ^ 24 * 2 ^ target := by
      rw [zpow_add₀ two_ne_zero]
      norm_num

theorem le_of_log2_eq {significand : ℕ} {exponent target : ℤ} {part : ℚ} (hpos : 0 < significand)
    (hpart : significand ≤ part) (htarget : target = significand.log2 + 1 + exponent - 24) :
    2 ^ 23 * 2 ^ target ≤ part * 2 ^ exponent := by
  have hlength : (2 ^ significand.log2 : ℚ) ≤ significand := by
    exact_mod_cast Nat.log2_self_le hpos.ne'
  calc
    (2 ^ 23 * 2 ^ target : ℚ) = 2 ^ (23 + target : ℤ) := by
      rw [zpow_add₀ two_ne_zero]
      norm_num
    _ = 2 ^ (significand.log2 + exponent : ℤ) := by
      congr 1
      omega
    _ = 2 ^ significand.log2 * 2 ^ exponent := by rw [zpow_add₀ two_ne_zero, zpow_natCast]
    _ ≤ part * 2 ^ exponent :=
      mul_le_mul_of_nonneg_right (hlength.trans hpart) (Format.two_zpow_pos exponent).le

/-- What the core library does with a significand that has two further bits. -/
theorem ofUnpacked_roundWithAccuracy (sign : Sign) {significand : ℕ} {exponent : ℤ}
    {accuracy : Accuracy} {part : ℚ}
    (hdescribes : Describes (.ofMantissaAndAccuracy significand accuracy) part)
    (hle : exponent ≤ max (significand.log2 + 1 + exponent - 24) (-149))
    (hpos : -149 < (significand.log2 + 1 + exponent - 24 : ℤ) → 0 < significand) :
    ofUnpacked (roundWithAccuracy model sign significand exponent accuracy) =
      nearest (isMinus sign) (part * 2 ^ exponent) := by
  obtain ⟨target, htarget⟩ : ∃ target, target = max (significand.log2 + 1 + exponent - 24) (-149) :=
    ⟨_, rfl⟩
  rw [← htarget] at hle
  have hwhole : (ExtendedMantissa.ofMantissaAndAccuracy significand accuracy).mantissa =
      significand := by
    rcases accuracy with _ | ⟨⟨⟩⟩ <;> rfl
  have hbounds := hdescribes.bounds
  rw [hwhole] at hbounds
  have hmagnitude : 0 ≤ part * 2 ^ exponent :=
    mul_nonneg ((Nat.cast_nonneg significand).trans hbounds.1) (Format.two_zpow_pos exponent).le
  -- the number in units of the target exponent
  have hscaled : part / 2 ^ (target - exponent).toNat = part * 2 ^ exponent / 2 ^ target := by
    have hpower : (2 : ℚ) ^ target = 2 ^ (target - exponent).toNat * 2 ^ exponent := by
      rw [← zpow_natCast, ← zpow_add₀ two_ne_zero]
      congr 1
      omega
    rw [hpower, mul_div_mul_right _ _ (Format.two_zpow_pos exponent).ne']
  have hunit := Format.two_zpow_pos target
  obtain ⟨hbelow, habove, htie⟩ := (hdescribes.shiftRight (target - exponent).toNat).near
  rw [hscaled, le_div_iff₀ hunit] at hbelow
  rw [hscaled, div_le_iff₀ hunit] at habove
  rw [hscaled, div_eq_iff hunit.ne', div_eq_iff hunit.ne'] at htie
  have hend : part * 2 ^ exponent < 2 ^ 24 * 2 ^ target := lt_of_log2_le hbounds.2 (by omega)
  have hstart : -149 < target → 2 ^ 23 * 2 ^ target ≤ part * 2 ^ exponent := fun hlow =>
    le_of_log2_eq (hpos (by omega)) hbounds.1 (by omega)
  rw [roundWithAccuracy, shiftToTargetExponent_eq _ _ _ htarget hle]
  dsimp only
  generalize ExtendedMantissa.roundedMantissa _ = rounded at *
  rcases roundsTo_or_filled (by omega) hstart hend hbelow habove htie with
    ⟨hcanonical, hrounds⟩ | ⟨rfl, hcanonical, hrounds⟩
  · rw [shiftToTargetExponent_of_fits hcanonical, nearest_of_roundsTo hcanonical hmagnitude hrounds]
    exact ofUnpacked_rounded sign hcanonical
  · rw [shiftToTargetExponent_filled (by omega), nearest_of_roundsTo hcanonical hmagnitude hrounds]
    exact ofUnpacked_rounded sign hcanonical

/-! ## Products, sums and quotients of significands -/

theorem log2_shiftLeft {n : ℕ} (hn : n ≠ 0) (count : ℕ) :
    (n <<< count).log2 = n.log2 + count := by
  rw [Nat.shiftLeft_eq, Nat.log2_eq_iff (by positivity), pow_add, pow_add, pow_add]
  have hlow := Nat.log2_self_le hn
  have hhigh := @Nat.lt_log2_self n
  rw [pow_succ] at hhigh
  constructor
  · exact Nat.mul_le_mul_right _ hlow
  · calc
      n * 2 ^ count < 2 ^ n.log2 * 2 * 2 ^ count :=
        Nat.mul_lt_mul_of_pos_right hhigh (by positivity)
      _ = 2 ^ n.log2 * 2 ^ count * 2 ^ 1 := by ring

theorem ofUnpacked_exact (sign : Sign) {significand : ℕ} {exponent : ℤ} (hpos : 0 < significand)
    (hle : exponent ≤ max (significand.log2 + 1 + exponent - 24) (-149)) :
    ofUnpacked (roundWithAccuracy model sign significand exponent .exact) =
      nearest (isMinus sign) (significand * 2 ^ exponent) :=
  ofUnpacked_roundWithAccuracy sign (.exact rfl) hle fun _ => hpos

theorem ofUnpacked_round (sign : Sign) {significand : ℕ} (exponent : ℤ) (hpos : 0 < significand) :
    ofUnpacked (UnpackedFloat.round model sign significand exponent) =
      nearest (isMinus sign) (significand * 2 ^ exponent) := by
  rw [UnpackedFloat.round, UnpackedFloat.decreaseExponent, targetExponent_eq, totalExponent]
  simp only
  generalize hcount : (exponent - max (significand.log2 + 1 + exponent - 24) (-149)).toNat = count
  have hshifted : 0 < significand <<< count := Nat.shiftLeft_pos_iff.mpr hpos
  rw [ofUnpacked_exact sign hshifted (by rw [log2_shiftLeft hpos.ne']; push_cast; omega)]
  congr 1
  rw [Nat.shiftLeft_eq, zpow_sub₀ two_ne_zero, zpow_natCast]
  push_cast
  field_simp

theorem ofUnpacked_product (sign : Sign) {significand other : ℕ} {exponent power : ℤ}
    (hpos : 0 < significand) (hcanonical : Format.binary32.Canonical significand exponent)
    (hpos' : 0 < other) (hcanonical' : Format.binary32.Canonical other power) :
    ofUnpacked (roundWithAccuracy model sign (significand * other) (exponent + power) .exact) =
      nearest (isMinus sign) (significand * 2 ^ exponent * (other * 2 ^ power)) := by
  have hproduct : 0 < significand * other := Nat.mul_pos hpos hpos'
  rw [ofUnpacked_exact sign hproduct]
  · congr 1
    rw [zpow_add₀ two_ne_zero]
    push_cast
    ring
  · rcases Nat.lt_or_ge (significand * other) (2 ^ 23) with hshort | hlong
    · -- both significands are short, so both numbers are subnormal
      have hleft : significand ≤ significand * other := Nat.le_mul_of_pos_right _ hpos'
      have hright : other ≤ significand * other := Nat.le_mul_of_pos_left _ hpos
      have hexponent : exponent = -149 :=
        hcanonical.full.resolve_left (by rw [leadingBit_eq]; omega)
      have hpower : power = -149 := hcanonical'.full.resolve_left (by rw [leadingBit_eq]; omega)
      omega
    · have hlog : 23 ≤ (significand * other).log2 := (Nat.le_log2 hproduct.ne').mpr hlong
      omega

theorem describes_quotient (numerator : ℕ) {denominator : ℕ} (hpos : 0 < denominator) :
    Describes (.ofMantissaAndAccuracy (numerator / denominator)
      (accuracyOfFraction (numerator % denominator) denominator)) (numerator / denominator) := by
  have hposQ : (0 : ℚ) < denominator := by exact_mod_cast hpos
  have hsplit : (numerator : ℚ) / denominator =
      (numerator / denominator : ℕ) + ((numerator % denominator : ℕ) : ℚ) / denominator := by
    have hnumerator : (numerator : ℚ) = denominator * (numerator / denominator : ℕ) +
        (numerator % denominator : ℕ) := by
      exact_mod_cast (Nat.div_add_mod numerator denominator).symm
    rw [div_eq_iff hposQ.ne', add_mul, div_mul_cancel₀ _ hposQ.ne', mul_comm]
    exact hnumerator
  have hrest : ((numerator % denominator : ℕ) : ℚ) / denominator < 1 := by
    rw [div_lt_one hposQ]
    exact_mod_cast Nat.mod_lt numerator hpos
  rw [hsplit]
  generalize numerator / denominator = whole
  generalize numerator % denominator = rest at *
  unfold accuracyOfFraction
  split_ifs with hzero
  · subst hzero
    exact .exact (by simp)
  · have hsome : (0 : ℚ) < (rest : ℚ) / denominator := by positivity
    cases hcompare : compare (2 * rest) denominator with
    | lt =>
        have hlt : (2 * rest : ℚ) < denominator := by
          exact_mod_cast compare_lt_iff_lt.mp hcompare
        have hpart : (rest : ℚ) / denominator < 1 / 2 := by
          rw [div_lt_iff₀ hposQ]
          linarith
        exact .below (by linarith) (by linarith)
    | eq =>
        have heq : (2 * rest : ℚ) = denominator := by
          exact_mod_cast compare_eq_iff_eq.mp hcompare
        have hpart : (rest : ℚ) / denominator = 1 / 2 := by
          rw [div_eq_iff hposQ.ne']
          linarith
        exact .middle (by rw [hpart])
    | gt =>
        have hgt : (denominator : ℚ) < 2 * rest := by
          exact_mod_cast compare_gt_iff_gt.mp hcompare
        have hpart : 1 / 2 < (rest : ℚ) / denominator := by
          rw [lt_div_iff₀ hposQ]
          linarith
        exact .above (by linarith) (by linarith)

/-- The quotient of significands is long enough to be rounded, unless the result is subnormal. -/
theorem le_quotient_log2 {significand other : ℕ} (hpos : 0 < significand) (hpos' : 0 < other)
    {difference target : ℤ}
    (htarget : target = min difference
      (max ((significand.log2 : ℤ) - other.log2 + difference - 24) (-149)))
    (hnormal : -149 < target) :
    2 ^ 23 ≤ significand <<< (difference - target).toNat / other := by
  rw [Nat.le_div_iff_mul_le hpos']
  have hlow : 2 ^ (significand.log2 + (difference - target).toNat) ≤
      significand <<< (difference - target).toNat := by
    rw [Nat.shiftLeft_eq, pow_add]
    exact Nat.mul_le_mul_right _ (Nat.log2_self_le hpos.ne')
  calc 2 ^ 23 * other ≤ 2 ^ 23 * 2 ^ (other.log2 + 1) :=
        Nat.mul_le_mul_left _ (@Nat.lt_log2_self other).le
    _ = 2 ^ (23 + (other.log2 + 1)) := (pow_add ..).symm
    _ ≤ 2 ^ (significand.log2 + (difference - target).toNat) :=
        Nat.pow_le_pow_right two_pos (by omega)
    _ ≤ _ := hlow

theorem ofUnpacked_quotient (sign : Sign) {significand other : ℕ} {exponent power : ℤ}
    (hpos : 0 < significand) (hpos' : 0 < other) :
    (match divCore model significand exponent other power with
      | (quotient, scale, accuracy) =>
        ofUnpacked (roundWithAccuracy model sign quotient scale accuracy)) =
      nearest (isMinus sign) (significand * 2 ^ exponent / (other * 2 ^ power)) := by
  rw [divCore, targetExponent_eq, totalExponent, totalExponent]
  simp only
  obtain ⟨target, htarget⟩ : ∃ target, target = min (exponent - power)
      (max ((significand.log2 : ℤ) - other.log2 + (exponent - power) - 24) (-149)) := ⟨_, rfl⟩
  have hsame : min (exponent - power) (max ((significand.log2 : ℤ) + 1 + exponent -
      (other.log2 + 1 + power) - 24) (-149)) = target := by
    rw [htarget]
    congr 2
    ring
  rw [hsame]
  have hlong := le_quotient_log2 hpos hpos' htarget
  have hlog : -149 < target →
      23 ≤ (significand <<< (exponent - power - target).toNat / other).log2 := by
    intro hnormal
    have hquotient := hlong hnormal
    exact (Nat.le_log2 (by omega)).mpr hquotient
  rw [ofUnpacked_roundWithAccuracy sign (describes_quotient _ hpos')]
  · congr 1
    have hpower : (2 : ℚ) ^ (exponent - power - target).toNat * 2 ^ target =
        2 ^ exponent / 2 ^ power := by
      rw [← zpow_natCast, ← zpow_add₀ two_ne_zero, ← zpow_sub₀ two_ne_zero]
      congr 1
      omega
    calc ((significand <<< (exponent - power - target).toNat : ℕ) : ℚ) / other * 2 ^ target
        = significand * (2 ^ (exponent - power - target).toNat * 2 ^ target) / other := by
          rw [Nat.shiftLeft_eq]
          push_cast
          ring
      _ = significand * 2 ^ exponent / (other * 2 ^ power) := by
          rw [hpower]
          field_simp
  · omega
  · intro hnormal
    by_contra hzero
    have hlog0 : (significand <<< (exponent - power - target).toNat / other).log2 = 0 := by
      rw [Nat.eq_zero_of_not_pos hzero]
      rfl
    omega

/-! ## Products and quotients of numbers -/

theorem isMinus_mul (sign other : Sign) :
    isMinus (sign * other) = (isMinus sign ^^ isMinus other) := by
  cases sign <;> cases other <;> rfl

theorem isMinus_div (sign other : Sign) :
    isMinus (sign / other) = (isMinus sign ^^ isMinus other) := by
  cases sign <;> cases other <;> rfl

theorem ofUnpacked_zero_eq_nearest (sign : Sign) :
    ofUnpacked (.zero sign) = nearest (isMinus sign) 0 := by
  cases sign <;> rfl

/-- A finite number is unpacked into its parts. -/
theorem unpack_of_parts {x : Float32} {negative : Bool} {significand : ℕ} {exponent : ℤ}
    (hparts : parts x = .finite negative significand exponent) :
    ∃ sign, isMinus sign = negative ∧
      ((significand = 0 ∧ x.toModel.unpack = .zero sign) ∨
        ∃ hpos, x.toModel.unpack = .finite sign significand exponent hpos) := by
  rw [parts_eq] at hparts
  cases hunpack : x.toModel.unpack with
  | notANumber | infinity => simp [hunpack] at hparts
  | zero sign =>
      rw [hunpack] at hparts
      cases hparts
      exact ⟨sign, rfl, .inl ⟨rfl, rfl⟩⟩
  | finite sign significand exponent hpos =>
      rw [hunpack] at hparts
      cases hparts
      exact ⟨sign, rfl, .inr ⟨hpos, rfl⟩⟩

section Finite

variable {x y : Float32} {negative minus : Bool} {significand other : ℕ} {exponent power : ℤ}
  (hx : parts x = .finite negative significand exponent)
  (hy : parts y = .finite minus other power)

include hx hy

theorem mul_eq_nearest :
    x * y = nearest (negative ^^ minus) (significand * 2 ^ exponent * (other * 2 ^ power)) := by
  have hcanonical := (canonical_of_parts hx).1
  have hcanonical' := (canonical_of_parts hy).1
  change ofUnpacked (UnpackedFloat.mul model x.toModel.unpack y.toModel.unpack) = _
  obtain ⟨sign, rfl, ⟨rfl, hleft⟩ | ⟨hpos, hleft⟩⟩ := unpack_of_parts hx <;>
    obtain ⟨sign', rfl, ⟨rfl, hright⟩ | ⟨hpos', hright⟩⟩ := unpack_of_parts hy <;>
    rw [hleft, hright, ← isMinus_mul]
  · exact (ofUnpacked_zero_eq_nearest _).trans (by simp)
  · exact (ofUnpacked_zero_eq_nearest _).trans (by simp)
  · exact (ofUnpacked_zero_eq_nearest _).trans (by simp)
  · exact ofUnpacked_product _ hpos hcanonical hpos' hcanonical'

theorem div_eq_nearest (hne : other ≠ 0) :
    x / y = nearest (negative ^^ minus) (significand * 2 ^ exponent / (other * 2 ^ power)) := by
  change ofUnpacked (UnpackedFloat.div model x.toModel.unpack y.toModel.unpack) = _
  obtain ⟨sign', rfl, ⟨hzero, -⟩ | ⟨hpos', hright⟩⟩ := unpack_of_parts hy
  · exact absurd hzero hne
  obtain ⟨sign, rfl, ⟨rfl, hleft⟩ | ⟨hpos, hleft⟩⟩ := unpack_of_parts hx <;>
    rw [hleft, hright, ← isMinus_div]
  · exact (ofUnpacked_zero_eq_nearest _).trans (by simp)
  · exact ofUnpacked_quotient _ hpos hpos'

end Finite

end Binary32

end NoiseShader.Number
