import NoiseShader.Proofs.Number.Arithmetic
import NoiseShader.Proofs.Number.Extremum
import Mathlib.Tactic

/-!
# Values of rounded results

The value of a rounded result depends on the exact result only.  It is infinite
where the exact result is too great, it is the exact result itself where that is a
number of the format, and it grows with the exact result.  These three facts are
what an estimate of a computation needs; the signs of zeros are not seen by them.
-/

namespace NoiseShader.Number

open Float.Model (UnpackedFloat)
open Float.Model.UnpackedFloat (Sign)

namespace Binary32

/-! ## Rounded values -/

/-- The value of a number of the format, which is infinite beyond the greatest exponent. -/
def signedValue (negative : Bool) (significand : ℕ) (exponent : ℤ) : Extended :=
  if exponent ≤ 104 then
    ((if negative then -(significand * 2 ^ exponent) else significand * 2 ^ exponent : ℚ) :
      WithTop ℚ)
  else if negative then ⊥ else ⊤

theorem value?_ofWord_encode {significand : ℕ} {exponent : ℤ}
    (hcanonical : Format.binary32.Canonical significand exponent) (negative : Bool) :
    value? (ofWord (Format.binary32.encode negative significand exponent)) =
      some (signedValue negative significand exponent) := by
  unfold value? signedValue
  by_cases hhigh : exponent ≤ 104
  · rw [parts_ofWord_encode hcanonical hhigh, if_pos hhigh]
    cases negative <;> rfl
  · rw [encode_of_lt hcanonical (by omega), parts_infinity, if_neg hhigh]
    cases negative <;> rfl

/-- The value of the number that is nearest to a rational number. -/
def roundedValue (number : ℚ) : Extended :=
  (value? (nearest (decide (number < 0)) |number|)).getD ⊥

section RoundsTo

variable {significand : ℕ} {exponent : ℤ} {number : ℚ}
  (hcanonical : Format.binary32.Canonical significand exponent)
  (hrounds : Format.binary32.RoundsTo significand exponent number)

include hcanonical hrounds

theorem value?_nearest (hnonneg : 0 ≤ number) (negative : Bool) :
    value? (nearest negative number) = some (signedValue negative significand exponent) := by
  rw [nearest_of_roundsTo hcanonical hnonneg hrounds, value?_ofWord_encode hcanonical]

theorem roundedValue_of_roundsTo (hnonneg : 0 ≤ number) :
    roundedValue number = signedValue false significand exponent := by
  unfold roundedValue
  rw [decide_eq_false (not_lt.mpr hnonneg), abs_of_nonneg hnonneg,
    value?_nearest hcanonical hrounds hnonneg]
  rfl

theorem roundedValue_neg_of_roundsTo (hnonneg : 0 ≤ number) :
    roundedValue (-number) = signedValue true significand exponent := by
  rcases hnonneg.eq_or_lt with hzero | hpos
  · subst hzero
    have hempty : significand = 0 := hrounds.significand_eq_zero
    rw [neg_zero, roundedValue_of_roundsTo hcanonical hrounds hnonneg, hempty]
    have hleast : exponent = -149 :=
      hcanonical.full.resolve_left (by rw [hempty, leadingBit_eq]; norm_num)
    simp [signedValue, hleast]
  · unfold roundedValue
    rw [decide_eq_true (neg_lt_zero.mpr hpos), abs_neg, abs_of_nonneg hnonneg,
      value?_nearest hcanonical hrounds hnonneg]
    rfl

end RoundsTo

theorem exists_roundsTo_of_nonneg {number : ℚ} (hnonneg : 0 ≤ number) :
    ∃ significand exponent, Format.binary32.Canonical significand exponent ∧
      Format.binary32.RoundsTo significand exponent number := by
  have hexists := @Format.exists_roundsTo .binary32 (by decide) number.num.natAbs number.den
    number.den_pos
  rwa [natAbs_num_div_den hnonneg] at hexists

theorem value?_roundRatio (negative : Bool) (numerator : ℕ) {denominator : ℕ}
    (hdenominator : 0 < denominator) :
    value? (ofWord (Format.binary32.roundRatio negative numerator denominator)) =
      some (roundedValue (if negative then -(numerator / denominator)
        else numerator / denominator)) := by
  obtain ⟨significand, exponent, hcanonical, hrounds⟩ :=
    @Format.exists_roundsTo .binary32 (by decide) numerator denominator hdenominator
  have hnonneg : (0 : ℚ) ≤ numerator / denominator := by positivity
  rw [Format.roundRatio_of_roundsTo hcanonical negative hdenominator hrounds,
    value?_ofWord_encode hcanonical]
  cases negative with
  | false => exact congrArg some (roundedValue_of_roundsTo hcanonical hrounds hnonneg).symm
  | true => exact congrArg some (roundedValue_neg_of_roundsTo hcanonical hrounds hnonneg).symm

theorem value?_nearest_eq (negative : Bool) {number : ℚ} (hnonneg : 0 ≤ number) :
    value? (nearest negative number) =
      some (roundedValue (if negative then -number else number)) := by
  rw [nearest, value?_roundRatio _ _ number.den_pos, natAbs_num_div_den hnonneg]

/-! ## Rounding is monotone -/

section Order

variable {significand other : ℕ} {exponent power : ℤ} {number greater : ℚ}
  (hcanonical : Format.binary32.Canonical significand exponent)
  (hcanonical' : Format.binary32.Canonical other power)

include hcanonical hcanonical'

/-- Of two numbers that are nearest to two rational numbers the greater one belongs to the greater
rational number, since otherwise each would be nearer to the other. -/
theorem le_of_roundsTo (hrounds : Format.binary32.RoundsTo significand exponent number)
    (hrounds' : Format.binary32.RoundsTo other power greater) (hlt : number < greater) :
    (significand * 2 ^ exponent : ℚ) ≤ other * 2 ^ power := by
  by_contra hle
  have hgt := not_le.mp hle
  have hnear := (hrounds.nearest hcanonical).closest other power hcanonical'
  have hnear' := (hrounds'.nearest hcanonical').closest significand exponent hcanonical
  rw [Format.upper_closer_iff hgt] at hnear
  rw [Format.lower_closer_iff hgt] at hnear'
  linarith

theorem signedValue_mono (hle : (significand * 2 ^ exponent : ℚ) ≤ other * 2 ^ power) :
    signedValue false significand exponent ≤ signedValue false other power ∧
      signedValue true other power ≤ signedValue true significand exponent := by
  have hexponent : power ≤ 104 → exponent ≤ 104 := by
    intro hpower
    by_contra hhigh
    have hlt := hcanonical'.lt_of_exponent_lt hcanonical (by omega)
    linarith
  unfold signedValue
  by_cases hpower : power ≤ 104
  · rw [if_pos hpower, if_pos (hexponent hpower), if_pos hpower, if_pos (hexponent hpower)]
    simp only [Bool.false_eq_true, if_false, if_true, WithBot.coe_le_coe, WithTop.coe_le_coe]
    exact ⟨hle, neg_le_neg hle⟩
  · rw [if_neg hpower, if_neg hpower]
    exact ⟨le_top, bot_le⟩

end Order

theorem signedValue_sign {significand : ℕ} {exponent : ℤ} :
    signedValue true significand exponent ≤ ((0 : ℚ) : WithTop ℚ) ∧
      ((0 : ℚ) : WithTop ℚ) ≤ signedValue false significand exponent := by
  have hnonneg : (0 : ℚ) ≤ significand * 2 ^ exponent := by positivity
  unfold signedValue
  by_cases hhigh : exponent ≤ 104
  · rw [if_pos hhigh, if_pos hhigh]
    simp only [Bool.false_eq_true, if_false, if_true, WithBot.coe_le_coe, WithTop.coe_le_coe]
    exact ⟨neg_nonpos.mpr hnonneg, hnonneg⟩
  · rw [if_neg hhigh, if_neg hhigh]
    exact ⟨bot_le, le_top⟩

theorem roundedValue_mono : Monotone roundedValue := by
  intro number greater hle
  rcases hle.eq_or_lt with rfl | hlt
  · exact le_rfl
  rcases le_or_gt 0 number with hnonneg | hneg
  · obtain ⟨significand, exponent, hcanonical, hrounds⟩ := exists_roundsTo_of_nonneg hnonneg
    obtain ⟨other, power, hcanonical', hrounds'⟩ := exists_roundsTo_of_nonneg (hnonneg.trans hle)
    rw [roundedValue_of_roundsTo hcanonical hrounds hnonneg,
      roundedValue_of_roundsTo hcanonical' hrounds' (hnonneg.trans hle)]
    exact (signedValue_mono hcanonical hcanonical'
      (le_of_roundsTo hcanonical hcanonical' hrounds hrounds' hlt)).1
  · have hopposite : 0 ≤ -number := by linarith
    obtain ⟨significand, exponent, hcanonical, hrounds⟩ := exists_roundsTo_of_nonneg hopposite
    rw [← neg_neg number, roundedValue_neg_of_roundsTo hcanonical hrounds hopposite]
    rcases le_or_gt 0 greater with hnonneg | hneg'
    · obtain ⟨other, power, hcanonical', hrounds'⟩ := exists_roundsTo_of_nonneg hnonneg
      rw [roundedValue_of_roundsTo hcanonical' hrounds' hnonneg]
      exact signedValue_sign.1.trans signedValue_sign.2
    · have hopposite' : 0 ≤ -greater := by linarith
      obtain ⟨other, power, hcanonical', hrounds'⟩ := exists_roundsTo_of_nonneg hopposite'
      rw [← neg_neg greater, roundedValue_neg_of_roundsTo hcanonical' hrounds' hopposite']
      exact (signedValue_mono hcanonical' hcanonical
        (le_of_roundsTo hcanonical' hcanonical hrounds' hrounds (by linarith))).2

/-! ## Numbers of the format -/

/-- A number is finite and has a rational value. -/
def IsRational (x : Float32) (number : ℚ) : Prop :=
  value? x = some ((number : WithTop ℚ) : Extended)

/-- A number between two rational numbers is finite. -/
theorem exists_between {x : Float32} {a : Extended} {least greatest : ℚ}
    (hvalue : value? x = some a) (hleast : ((least : WithTop ℚ) : Extended) ≤ a)
    (hgreatest : a ≤ ((greatest : WithTop ℚ) : Extended)) :
    ∃ number, IsRational x number ∧ least ≤ number ∧ number ≤ greatest := by
  induction a using WithBot.recBotCoe with
  | bot => exact absurd hleast (WithBot.not_coe_le_bot _)
  | coe a =>
      rw [WithBot.coe_le_coe] at hleast hgreatest
      induction a using WithTop.recTopCoe with
      | top => exact absurd hgreatest (WithTop.not_top_le_coe _)
      | coe number =>
          exact ⟨number, hvalue, WithTop.coe_le_coe.mp hleast, WithTop.coe_le_coe.mp hgreatest⟩

theorem rational_le_iff {p q : ℚ} :
    ((p : WithTop ℚ) : Extended) ≤ ((q : WithTop ℚ) : Extended) ↔ p ≤ q := by
  rw [WithBot.coe_le_coe, WithTop.coe_le_coe]

/-- A value that is not below zero. -/
theorem eq_top_or_rational {a : Extended} (hnonneg : ((0 : ℚ) : WithTop ℚ) ≤ a) :
    a = ⊤ ∨ ∃ t : ℚ, a = (t : WithTop ℚ) := by
  induction a using WithBot.recBotCoe with
  | bot => exact absurd hnonneg (WithBot.not_coe_le_bot _)
  | coe a =>
      induction a using WithTop.recTopCoe with
      | top => exact .inl rfl
      | coe t => exact .inr ⟨t, rfl⟩

theorem IsRational.unpack {x : Float32} {number : ℚ} (hx : IsRational x number) :
    HasRational x.toModel.unpack number := by
  have hvalue := hasValue hx
  generalize hnumber : ((number : WithTop ℚ) : Extended) = a at hvalue
  generalize x.toModel.unpack = u at hvalue ⊢
  cases hvalue with
  | least => exact absurd hnumber WithBot.coe_ne_bot
  | greatest => exact absurd (WithBot.coe_injective hnumber) WithTop.coe_ne_top
  | rational hrational =>
      rwa [WithTop.coe_injective (WithBot.coe_injective hnumber)]

theorem IsRational.exists_parts {x : Float32} {number : ℚ} (hx : IsRational x number) :
    ∃ negative significand exponent, parts x = .finite negative significand exponent ∧
      number = (if negative then -1 else 1) * (significand * 2 ^ exponent) := by
  cases hparts : parts x with
  | notANumber => simp [IsRational, value?, hparts, Parts.value?] at hx
  | infinite negative =>
      rw [IsRational, value?, hparts] at hx
      cases negative <;> simp only [Parts.value?, Option.some.injEq] at hx
      · exact absurd (WithBot.coe_injective hx).symm WithTop.coe_ne_top
      · exact absurd hx.symm WithBot.coe_ne_bot
  | finite negative significand exponent =>
      rw [IsRational, value?_of_parts hparts] at hx
      exact ⟨negative, significand, exponent, rfl,
        (WithTop.coe_injective (WithBot.coe_injective (Option.some.inj hx))).symm⟩

/-- A number of the format is not changed by rounding, and neither is its opposite. -/
theorem IsRational.rounded {x : Float32} {number : ℚ} (hx : IsRational x number) :
    roundedValue number = ((number : WithTop ℚ) : Extended) ∧
      roundedValue (-number) = (((-number : ℚ) : WithTop ℚ) : Extended) := by
  obtain ⟨negative, significand, exponent, hparts, rfl⟩ := hx.exists_parts
  obtain ⟨hcanonical, hhigh⟩ := canonical_of_parts hparts
  have hself := Format.binary32.roundsTo_self significand exponent
  have hnonneg : (0 : ℚ) ≤ significand * 2 ^ exponent := by positivity
  have habove := roundedValue_of_roundsTo hcanonical hself hnonneg
  have hbelow := roundedValue_neg_of_roundsTo hcanonical hself hnonneg
  rw [signedValue, if_pos hhigh] at habove hbelow
  cases negative with
  | false =>
      rw [if_neg Bool.false_ne_true, one_mul]
      exact ⟨habove, hbelow⟩
  | true =>
      rw [if_pos rfl, neg_one_mul, neg_neg]
      exact ⟨hbelow, habove⟩

theorem isRational_of_parts {x : Float32} {significand : ℕ} {exponent : ℤ}
    (hparts : parts x = .finite false significand exponent) :
    IsRational x (significand * 2 ^ exponent) := by
  rw [IsRational, value?_of_parts hparts, if_neg Bool.false_ne_true, one_mul]

theorem exists_isRational {x : Float32} (hfinite : isFinite x = true) :
    ∃ number, IsRational x number := by
  cases hparts : parts x with
  | notANumber =>
      rw [eq_notANumber_of_parts hparts] at hfinite
      exact absurd hfinite (by decide)
  | infinite negative =>
      rw [eq_infinity_of_parts hparts] at hfinite
      exact absurd hfinite (by cases negative <;> decide)
  | finite negative significand exponent => exact ⟨_, value?_of_parts hparts⟩

theorem isRational_of_isZero {x : Float32} (hx : isZero x = true) : IsRational x 0 := by
  obtain ⟨negative, hparts⟩ := exists_parts_of_isZero hx
  rw [IsRational, value?_of_parts hparts]
  simp

theorem roundedValue_zero : roundedValue 0 = ((0 : ℚ) : WithTop ℚ) :=
  (@isRational_of_isZero 0 rfl).rounded.1

/-! ## Operations -/

theorem value?_ofUnpacked {u : UnpackedFloat} {number : ℚ} (hu : HasRational u number) :
    value? (ofUnpacked u) = some (roundedValue number) := by
  cases hu with
  | zero sign =>
      rw [roundedValue_zero]
      apply isRational_of_isZero
      cases sign <;> rfl
  | @positive significand exponent hpos hcanonical =>
      have hself := Format.binary32.roundsTo_self significand exponent
      rw [ofUnpacked_finite _ hpos hcanonical, value?_ofWord_encode hcanonical,
        roundedValue_of_roundsTo hcanonical hself (by positivity)]
      rfl
  | @negative significand exponent hpos hcanonical =>
      have hself := Format.binary32.roundsTo_self significand exponent
      rw [ofUnpacked_finite _ hpos hcanonical, value?_ofWord_encode hcanonical,
        roundedValue_neg_of_roundsTo hcanonical hself (by positivity)]
      rfl

theorem value?_normalize (significand exponent : ℤ) (sign : Sign) :
    value? (ofUnpacked (UnpackedFloat.normalize model significand exponent sign)) =
      some (roundedValue (significand * 2 ^ exponent)) := by
  unfold UnpackedFloat.normalize
  cases hcompare : compare significand 0 with
  | lt =>
      have hneg : significand < 0 := compare_lt_iff_lt.mp hcompare
      obtain ⟨count, rfl⟩ : ∃ count : ℕ, significand = -count := ⟨significand.natAbs, by omega⟩
      simp only [neg_neg, Int.toNat_natCast]
      rw [ofUnpacked_round _ _ (by omega), value?_nearest_eq _ (by positivity)]
      simp [isMinus]
  | eq =>
      rw [compare_eq_iff_eq.mp hcompare, Int.cast_zero, zero_mul]
      exact value?_ofUnpacked (.zero sign)
  | gt =>
      have hpos : 0 < significand := compare_gt_iff_gt.mp hcompare
      obtain ⟨count, rfl⟩ : ∃ count : ℕ, significand = count := ⟨significand.natAbs, by omega⟩
      simp only [Int.toNat_natCast]
      rw [ofUnpacked_round _ _ (by omega), value?_nearest_eq _ (by positivity)]
      simp [isMinus]

/-- A finite unpacked number by its sign. -/
theorem eq_apply_of_hasRational {sign : Sign} {significand : ℕ} {exponent : ℤ}
    {hpos : 0 < significand} {number : ℚ}
    (hu : HasRational (.finite sign significand exponent hpos) number) :
    number = (sign.apply significand : ℤ) * 2 ^ exponent := by
  cases hu with
  | positive _ hcanonical => simp [Sign.apply]
  | negative _ hcanonical => simp [Sign.apply]

theorem apply_shiftLeft (sign : Sign) (significand : ℕ) {exponent least : ℤ}
    (hle : least ≤ exponent) :
    ((sign.apply ((significand <<< (exponent - least).toNat : ℕ) : ℤ) : ℤ) : ℚ) * 2 ^ least =
      (sign.apply significand : ℤ) * 2 ^ exponent := by
  have hpower : (2 : ℚ) ^ exponent = 2 ^ (exponent - least).toNat * 2 ^ least := by
    rw [← zpow_natCast, ← zpow_add₀ two_ne_zero, Int.toNat_of_nonneg (by omega), sub_add_cancel]
  rw [hpower, Nat.shiftLeft_eq]
  cases sign <;> simp [Sign.apply] <;> ring

theorem value?_unpacked_add {u v : UnpackedFloat} {p q : ℚ} (hu : HasRational u p)
    (hv : HasRational v q) :
    value? (ofUnpacked (UnpackedFloat.add model u v)) = some (roundedValue (p + q)) := by
  cases u with
  | notANumber | infinity => cases hu
  | zero sign =>
      cases hu
      rw [zero_add]
      cases v with
      | notANumber | infinity => cases hv
      | zero sign' =>
          cases hv
          cases sign <;> cases sign' <;> exact value?_ofUnpacked (.zero _)
      | finite => exact value?_ofUnpacked hv
  | finite sign significand exponent hpos =>
      cases v with
      | notANumber | infinity => cases hv
      | zero =>
          cases hv
          rw [add_zero]
          exact value?_ofUnpacked hu
      | finite sign' significand' exponent' hpos' =>
          unfold UnpackedFloat.add
          rw [eq_apply_of_hasRational hu, eq_apply_of_hasRational hv]
          simp only [UnpackedFloat.decreaseExponent]
          rw [value?_normalize, Int.cast_add, add_mul, apply_shiftLeft _ _ (min_le_left ..),
            apply_shiftLeft _ _ (min_le_right ..)]

theorem hasRational_neg {u : UnpackedFloat} {p : ℚ} (hu : HasRational u p) :
    HasRational u.neg (-p) := by
  cases hu with
  | zero sign =>
      rw [neg_zero]
      exact .zero _
  | positive hpos hcanonical => exact .negative hpos hcanonical
  | negative hpos hcanonical =>
      rw [neg_neg]
      exact .positive hpos hcanonical

section Operations

variable {x y : Float32} {p q : ℚ} (hx : IsRational x p) (hy : IsRational y q)

include hx

theorem isRational_neg : IsRational (-x) (-p) := by
  have hneg := value?_ofUnpacked (hasRational_neg hx.unpack)
  rwa [hx.rounded.2] at hneg

include hy

theorem value?_add : value? (x + y) = some (roundedValue (p + q)) :=
  value?_unpacked_add hx.unpack hy.unpack

theorem value?_sub : value? (x - y) = some (roundedValue (p - q)) := by
  change value? (ofUnpacked (UnpackedFloat.sub model _ _)) = _
  rw [unpacked_sub_eq, sub_eq_add_neg]
  exact value?_unpacked_add hx.unpack (hasRational_neg hy.unpack)

theorem value?_mul : value? (x * y) = some (roundedValue (p * q)) := by
  obtain ⟨negative, significand, exponent, hparts, rfl⟩ := hx.exists_parts
  obtain ⟨minus, other, power, hparts', rfl⟩ := hy.exists_parts
  rw [mul_eq_nearest hparts hparts', value?_nearest_eq _ (by positivity)]
  cases negative <;> cases minus <;> simp

theorem value?_div (hq : q ≠ 0) : value? (x / y) = some (roundedValue (p / q)) := by
  obtain ⟨negative, significand, exponent, hparts, rfl⟩ := hx.exists_parts
  obtain ⟨minus, other, power, hparts', rfl⟩ := hy.exists_parts
  have hne : other ≠ 0 := by
    rintro rfl
    simp at hq
  rw [div_eq_nearest hparts hparts' hne, value?_nearest_eq _ (by positivity)]
  cases negative <;> cases minus <;> simp [neg_div, div_neg]

end Operations

/-! ## Infinite summands and comparisons -/

theorem value?_add_top {x y : Float32} {p : ℚ} (hx : IsRational x p) (hy : value? y = some ⊤) :
    value? (x + y) = some ⊤ := by
  have hinfinite : parts y = .infinite false :=
    (isInfinite_iff y false).mp ((isInfinite_iff_value hy).2.mpr rfl)
  have hsum : ∀ u, HasRational u p →
      UnpackedFloat.add model u (.infinity .positive) = .infinity .positive := by
    intro u hu
    cases hu <;> rfl
  rw [eq_infinity_of_parts hinfinite]
  change value? (ofUnpacked (UnpackedFloat.add model x.toModel.unpack (.infinity .positive))) = _
  rw [hsum _ hx.unpack]
  rfl

theorem le_iff_value {x y : Float32} {a b : Extended} (hx : value? x = some a)
    (hy : value? y = some b) : x ≤ y ↔ a ≤ b := by
  have hcompare := (hasValue hx).compare_eq (hasValue hy)
  have hle : x ≤ y ↔ UnpackedFloat.le x.toModel.unpack y.toModel.unpack = true := by
    change decide (UnpackedFloat.le _ _ = true) = true ↔ _
    rw [decide_eq_true_iff]
  rw [hle, UnpackedFloat.le, hcompare, Option.any_some, Ordering.isLE_iff_eq_lt_or_eq_eq,
    cmp_eq_lt_iff, cmp_eq_eq_iff, le_iff_lt_or_eq]

/-! ## Natural numbers -/

/-- A short significand is brought to full length, as far as the least exponent allows. -/
theorem exists_canonical {significand : ℕ} {exponent : ℤ} (hsmall : significand < 2 ^ 24)
    (hleast : -149 ≤ exponent) :
    ∃ full power, Format.binary32.Canonical full power ∧ power ≤ exponent ∧
      (full * 2 ^ power : ℚ) = significand * 2 ^ exponent := by
  induction hcount : (exponent + 149).toNat generalizing significand exponent with
  | zero =>
      have hexponent : exponent = -149 := by omega
      exact ⟨significand, exponent, ⟨hsmall, hleast, .inr hexponent⟩, le_rfl, rfl⟩
  | succ count ih =>
      rcases Nat.lt_or_ge significand (2 ^ 23) with hshort | hlong
      · obtain ⟨full, power, hcanonical, hle, hvalue⟩ :=
          @ih (2 * significand) (exponent - 1) (by omega) (by omega) (by omega)
        refine ⟨full, power, hcanonical, by omega, ?_⟩
        rw [hvalue, zpow_sub_one₀ two_ne_zero]
        push_cast
        ring
      · exact ⟨significand, exponent, ⟨hsmall, hleast, .inl hlong⟩, le_rfl, rfl⟩

theorem roundedValue_of_fits {significand : ℕ} {exponent : ℤ} (hsmall : significand < 2 ^ 24)
    (hleast : -149 ≤ exponent) (hhigh : exponent ≤ 104) :
    roundedValue (significand * 2 ^ exponent) =
      (((significand * 2 ^ exponent : ℚ) : WithTop ℚ) : Extended) := by
  obtain ⟨full, power, hcanonical, hle, hvalue⟩ := exists_canonical hsmall hleast
  rw [← hvalue, roundedValue_of_roundsTo hcanonical (Format.binary32.roundsTo_self ..)
    (by positivity), signedValue, if_pos (hle.trans hhigh)]
  rfl

theorem isRational_of_fits {x : Float32} {n : ℕ} (hx : value? x = some (roundedValue n))
    (hsmall : n < 2 ^ 24) : IsRational x n := by
  have hfits := @roundedValue_of_fits n 0 hsmall (by norm_num) (by norm_num)
  rw [zpow_zero, mul_one] at hfits
  rw [IsRational, hx, hfits]

theorem isRational_one : IsRational 1 1 := by
  have hparts : parts 1 = .finite false (2 ^ 23) (-23) := by decide
  rw [IsRational, value?_of_parts hparts]
  norm_num

theorem value?_toFloat32 (word : UInt64) :
    value? word.toFloat32 = some (roundedValue word.toNat) := by
  have hnormalize := value?_normalize word.toNat 0 .positive
  rw [zpow_zero, mul_one, Int.cast_natCast] at hnormalize
  exact hnormalize

/-- A number by its digits has twenty-four more of them than it needs. -/
theorem value?_ofScientific {n : ℕ} (hpos : 0 < n) :
    value? (ofUnpacked (UnpackedFloat.ofScientific model n 0)) = some (roundedValue n) := by
  have hlow : ¬ (0 : ℤ) < -((2 ^ model.exponentBits : ℤ) + n.log2) :=
    not_lt.mpr (neg_nonpos.mpr (add_nonneg (pow_nonneg (by norm_num) _) (Int.natCast_nonneg _)))
  unfold UnpackedFloat.ofScientific
  rw [dif_neg hpos.ne', if_neg (by norm_num), if_neg hlow, if_pos le_rfl]
  unfold UnpackedFloat.mul
  clear hlow
  have hshifted : 0 < n <<< 24 * 1 := by
    rw [Nat.mul_one]
    exact Nat.shiftLeft_pos_iff.mpr hpos
  have hexact := @ofUnpacked_exact .positive (n <<< 24 * 1) (-24 + 0) hshifted (by
    rw [Nat.mul_one, log2_shiftLeft hpos.ne']
    push_cast
    omega)
  have hnumber : ((n <<< 24 * 1 : ℕ) : ℚ) * 2 ^ (-24 + 0 : ℤ) = n := by
    rw [Nat.mul_one, Nat.shiftLeft_eq]
    push_cast
    rw [mul_assoc]
    norm_num
  rw [hnumber] at hexact
  have hvalue := value?_nearest_eq (isMinus .positive) (Nat.cast_nonneg (α := ℚ) n)
  rw [← hexact] at hvalue
  exact hvalue

/-- Small numbers are converted at once and all others by their digits. -/
theorem value?_ofNat (n : ℕ) : value? (Float32.ofNat n) = some (roundedValue n) := by
  change value? (Float32.ofScientific n false 0) = _
  unfold Float32.ofScientific
  simp only [Bool.false_eq_true, if_false]
  split_ifs with hsmall
  · have hvalue := value?_toFloat32 n.toUInt64
    have hnumber : n.toUInt64.toNat = n := Nat.mod_eq_of_lt (by omega)
    rw [hnumber] at hvalue
    have hproduct := value?_mul (isRational_of_fits hvalue (by omega)) isRational_one
    rw [mul_one] at hproduct
    exact hproduct
  · exact value?_ofScientific (by omega)

theorem isRational_ofNat {n : ℕ} (hsmall : n < 2 ^ 24) : IsRational (Float32.ofNat n) n :=
  isRational_of_fits (value?_ofNat n) hsmall

end Binary32

end NoiseShader.Number
