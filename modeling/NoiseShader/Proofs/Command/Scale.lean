import NoiseShader.Command.Run
import NoiseShader.Proofs.Number.Narrowing
import NoiseShader.Proofs.Number.Values
import Mathlib.Tactic

/-!
# Scales that leave something to show

A picture shows a square around the origin whose side is the scale.  The scale is a
double precision number; it is narrowed and halved, and the side is then measured
again as the difference of two corners.  Each of these operations rounds, and a
positive scale that is too small is lost on the way: it must not be narrowed to the
least positive number, whose half is rounded to zero.
-/

namespace NoiseShader.Number

namespace Binary32

/-! ## Halves -/

/-- The least positive number. -/
def leastPositive : ℚ := 2 ^ (-149 : ℤ)

theorem leastPositive_pos : 0 < leastPositive := Format.two_zpow_pos _

theorem canonical_of_small {significand : ℕ} (hsmall : significand < 2 ^ 23) :
    Format.binary32.Canonical significand (-149) :=
  ⟨by rw [leadingBit_eq]; omega, le_rfl, .inr rfl⟩

theorem lowerEnd_of_small {significand : ℕ} :
    Format.binary32.lowerEnd significand (-149) = (significand - 1 / 2) * leastPositive := by
  rw [Format.lowerEnd, if_neg (by rw [leastExponent_eq]; omega), leastPositive]

theorem roundedValue_of_small {significand : ℕ} (hsmall : significand < 2 ^ 23) {number : ℚ}
    (hnonneg : 0 ≤ number)
    (hrounds : Format.binary32.RoundsTo significand (-149) number) :
    roundedValue number = ((significand * leastPositive : ℚ) : WithTop ℚ) := by
  rw [roundedValue_of_roundsTo (canonical_of_small hsmall) hrounds hnonneg]
  rfl

/-- The least scale that is not lost. -/
def leastScale : ℚ := 3 / 2 * leastPositive

theorem roundedValue_leastScale :
    roundedValue leastScale = ((2 * leastPositive : ℚ) : WithTop ℚ) := by
  have hpos := leastPositive_pos
  refine roundedValue_of_small (by norm_num : 2 < 2 ^ 23) ?_ ⟨?_, ?_, fun _ => rfl, fun _ => rfl⟩
  · rw [leastScale]
    positivity
  · rw [lowerEnd_of_small, leastScale]
    norm_num
  · rw [Format.upperEnd, leastScale, ← leastPositive]
    norm_num
    linarith

theorem roundedValue_half : roundedValue (leastPositive / 2) = ((0 : ℚ) : WithTop ℚ) := by
  have hpos := leastPositive_pos
  have hzero := @roundedValue_of_small 0 (by norm_num) (leastPositive / 2) (by positivity)
    ⟨?_, ?_, fun _ => rfl, fun _ => rfl⟩
  · rwa [Nat.cast_zero, zero_mul] at hzero
  · rw [lowerEnd_of_small]
    norm_num
    linarith
  · rw [Format.upperEnd, ← leastPositive]
    norm_num
    linarith

theorem roundedValue_of_ge {number : ℚ} (hle : leastScale ≤ number) :
    ((2 * leastPositive : ℚ) : WithTop ℚ) ≤ roundedValue number := by
  rw [← roundedValue_leastScale]
  exact roundedValue_mono hle

theorem roundedValue_eq_leastPositive {number : ℚ} (hlow : leastPositive ≤ number)
    (hhigh : number < leastScale) :
    roundedValue number = ((leastPositive : ℚ) : WithTop ℚ) := by
  have hpos := leastPositive_pos
  unfold leastScale at hhigh
  have hvalue := @roundedValue_of_small 1 (by norm_num) number (by linarith) ⟨?_, ?_, ?_, ?_⟩
  · rwa [Nat.cast_one, one_mul] at hvalue
  · rw [lowerEnd_of_small]
    norm_num
    linarith
  · rw [Format.upperEnd, ← leastPositive]
    norm_num
    linarith
  · rw [lowerEnd_of_small]
    intro heq
    norm_num at heq
    linarith
  · rw [Format.upperEnd, ← leastPositive]
    intro heq
    norm_num at heq
    linarith

theorem roundedValue_of_lt {number : ℚ} (hlt : number < leastScale) :
    roundedValue number ≤ ((leastPositive : ℚ) : WithTop ℚ) := by
  have hpos := leastPositive_pos
  have hhigh : max number leastPositive < leastScale := by
    rw [max_lt_iff]
    refine ⟨hlt, ?_⟩
    rw [leastScale]
    linarith
  rw [← roundedValue_eq_leastPositive (le_max_right ..) hhigh]
  exact roundedValue_mono (le_max_left ..)

/-- The side of the square with half the side on either side of the origin. -/
def side (x : Float32) : Float32 := x / 2 - -(x / 2)

theorem isRational_two : IsRational 2 2 := @isRational_ofNat 2 (by norm_num)

/-- The half of a finite number is finite. -/
theorem IsRational.exists_half {x : Float32} {number : ℚ} (hx : IsRational x number) :
    ∃ half, IsRational (x / 2) half ∧
      roundedValue (number / 2) = ((half : WithTop ℚ) : Extended) := by
  have hvalue := value?_div hx isRational_two two_ne_zero
  obtain ⟨habove, hbelow⟩ := hx.rounded
  rcases le_total 0 number with hnonneg | hnonpos
  · obtain ⟨half, hhalf, -, -⟩ := exists_between hvalue
      (by rw [← roundedValue_zero]; exact roundedValue_mono (by linarith))
      (by rw [← habove]; exact roundedValue_mono (by linarith))
    exact ⟨half, hhalf, Option.some.inj (hvalue.symm.trans hhalf)⟩
  · obtain ⟨half, hhalf, -, -⟩ := exists_between hvalue
      (by rw [← habove]; exact roundedValue_mono (by linarith))
      (by rw [← roundedValue_zero]; exact roundedValue_mono (by linarith))
    exact ⟨half, hhalf, Option.some.inj (hvalue.symm.trans hhalf)⟩

theorem value?_side {x : Float32} {half : ℚ} (hhalf : IsRational (x / 2) half) :
    value? (side x) = some (roundedValue (half - -half)) :=
  value?_sub hhalf (isRational_neg hhalf)

theorem side_pos {x : Float32} {a : Extended} (hx : value? x = some a)
    (hle : ((2 * leastPositive : ℚ) : WithTop ℚ) ≤ a) : 0 < side x := by
  have hpos := leastPositive_pos
  have hnonneg : ((0 : ℚ) : WithTop ℚ) ≤ a := (rational_le_iff.mpr (by positivity)).trans hle
  rcases eq_top_or_rational hnonneg with rfl | ⟨number, rfl⟩
  · rw [eq_infinity_of_parts ((isInfinite_iff x false).mp ((isInfinite_iff_value hx).2.mpr rfl))]
    decide +kernel
  · obtain ⟨half, hhalf, hrounded⟩ := IsRational.exists_half hx
    rw [rational_le_iff] at hle
    have hleast : leastPositive ≤ half := by
      have hself := @roundedValue_of_fits 1 (-149) (by norm_num) (by norm_num) (by norm_num)
      rw [Nat.cast_one, one_mul, ← leastPositive] at hself
      rw [← rational_le_iff, ← hrounded, ← hself]
      exact roundedValue_mono (by linarith)
    have hside : ((half : WithTop ℚ) : Extended) ≤ roundedValue (half - -half) := by
      rw [← hhalf.rounded.1]
      exact roundedValue_mono (by linarith)
    have hzero : (((0 : ℚ) : WithTop ℚ) : Extended) < ((half : WithTop ℚ) : Extended) := by
      rw [WithBot.coe_lt_coe, WithTop.coe_lt_coe]
      linarith
    exact (lt_iff_value (@isRational_of_isZero 0 rfl) (value?_side hhalf)).mpr
      (hzero.trans_le hside)

theorem not_side_pos {x : Float32} {a : Extended} (hx : value? x = some a)
    (hle : a ≤ ((leastPositive : ℚ) : WithTop ℚ)) : ¬ 0 < side x := by
  induction a using WithBot.recBotCoe with
  | bot =>
      rw [eq_infinity_of_parts ((isInfinite_iff x true).mp ((isInfinite_iff_value hx).1.mpr rfl))]
      decide +kernel
  | coe a =>
      induction a using WithTop.recTopCoe with
      | top => exact absurd (WithBot.coe_le_coe.mp hle) (WithTop.not_top_le_coe _)
      | coe number =>
          obtain ⟨half, hhalf, hrounded⟩ := IsRational.exists_half hx
          rw [rational_le_iff] at hle
          have hnonpos : half ≤ 0 := by
            rw [← rational_le_iff, ← hrounded, ← roundedValue_half]
            exact roundedValue_mono (by linarith)
          have hside : roundedValue (half - -half) ≤ ((0 : ℚ) : WithTop ℚ) := by
            rw [← roundedValue_zero]
            exact roundedValue_mono (by linarith)
          rw [lt_iff_value (@isRational_of_isZero 0 rfl) (value?_side hhalf)]
          exact not_lt.mpr hside

theorem side_pos_iff_of_rounded {x : Float32} {number : ℚ}
    (hx : value? x = some (roundedValue number)) : 0 < side x ↔ leastScale ≤ number := by
  constructor
  · intro hpos
    by_contra hlt
    exact not_side_pos hx (roundedValue_of_lt (not_le.mp hlt)) hpos
  · intro hle
    exact side_pos hx (roundedValue_of_ge hle)

/-! ## Narrowed numbers -/

theorem value?_roundDyadic (negative : Bool) (significand : ℕ) (exponent : ℤ) :
    value? (ofWord (Format.binary32.roundDyadic negative significand exponent)) =
      some (roundedValue (if negative then -(significand * 2 ^ exponent)
        else significand * 2 ^ exponent)) := by
  unfold Format.roundDyadic
  by_cases hfraction : exponent < 0
  · obtain ⟨count, rfl⟩ : ∃ count : ℕ, exponent = -count := ⟨(-exponent).toNat, by omega⟩
    have hratio : (significand : ℚ) / (powerOfTwo count : ℕ) =
        significand * 2 ^ (-count : ℤ) := by
      rw [zpow_neg, zpow_natCast, div_eq_mul_inv]
      congr 2
      exact_mod_cast rfl
    have hpos : 0 < powerOfTwo count := Nat.pow_pos Nat.two_pos
    rw [if_pos hfraction, neg_neg, Int.toNat_natCast, value?_roundRatio _ _ hpos, hratio]
  · obtain ⟨count, rfl⟩ := Int.eq_ofNat_of_zero_le (not_lt.mp hfraction)
    have hratio : ((significand <<< count : ℕ) : ℚ) / (1 : ℕ) =
        significand * 2 ^ (count : ℤ) := by
      rw [Nat.shiftLeft_eq, zpow_natCast]
      push_cast
      ring
    rw [if_neg hfraction, Int.toNat_natCast, value?_roundRatio _ _ Nat.one_pos, hratio]

end Binary32

namespace Binary64

def value? (x : Float) : Option Extended := (parts x).value?

open Binary32 (leastScale)

/-- A scale is shown if it is infinite or at least the least scale. -/
theorem side_pos_iff (scale : Float) :
    0 < Binary32.side (Binary32.ofDouble scale) ↔
      ∃ a, value? scale = some a ∧ ((leastScale : ℚ) : WithTop ℚ) ≤ a := by
  unfold Binary32.ofDouble value? parts
  cases Format.binary64.decode scale.toBits.toNat with
  | notANumber =>
      constructor
      · intro hpos
        exact absurd hpos (by decide +kernel)
      · rintro ⟨a, hvalue, -⟩
        cases hvalue
  | infinite negative =>
      cases negative with
      | false => exact ⟨fun _ => ⟨⊤, rfl, le_top⟩, fun _ => by decide +kernel⟩
      | true =>
          constructor
          · intro hpos
            exact absurd hpos (by decide +kernel)
          · rintro ⟨a, hvalue, hle⟩
            cases hvalue
            exact absurd hle (WithBot.not_coe_le_bot _)
  | finite negative significand exponent =>
      have hvalue : (Parts.finite negative significand exponent).value? =
          some ((((if negative then -(significand * 2 ^ exponent)
            else significand * 2 ^ exponent : ℚ)) : WithTop ℚ) : Extended) := by
        cases negative <;> rfl
      rw [Binary32.side_pos_iff_of_rounded (Binary32.value?_roundDyadic ..), hvalue]
      constructor
      · intro hle
        exact ⟨_, rfl, Binary32.rational_le_iff.mpr hle⟩
      · rintro ⟨a, hsome, hle⟩
        cases hsome
        exact Binary32.rational_le_iff.mp hle

end Binary64

end NoiseShader.Number
