import NoiseShader.Proofs.Number.Rounding
import Mathlib.Tactic

/-!
# Nearest numbers of a format

A number of a format is the nearest one to a real if no other is closer, and an odd
significand never stands at the same distance as another number.  The exponents are
not bounded from above here: what is nearest to a number beyond the format is
itself beyond it.

The numbers next to a given one are one unit above it and one unit below, or half
a unit at the start of a range of exponents.  So the reals that a number is nearest
to are those between the midpoints to its neighbours.
-/

namespace NoiseShader.Number.Format

/-- The number `significand * 2 ^ exponent` is the nearest one of the format to a real, and the
even one of two that are as near. -/
structure Nearest (format : Format) (significand : ℕ) (exponent : ℤ) (number : ℚ) : Prop where
  closest : ∀ other power, format.Canonical other power →
    |significand * 2 ^ exponent - number| ≤ |other * 2 ^ power - number|
  even : ∀ other power, format.Canonical other power →
    (other * 2 ^ power : ℚ) ≠ significand * 2 ^ exponent →
      |other * 2 ^ power - number| = |significand * 2 ^ exponent - number| →
        significand % 2 = 0

/-! ## Neighbours -/

section Neighbours

variable {format : Format} {significand other : ℕ} {exponent power : ℤ}

/-- A number with a lower exponent is below all numbers of full length. -/
theorem Canonical.le_of_power_lt (hother : format.Canonical other power)
    (hpower : power < exponent) :
    (other * 2 ^ power : ℚ) ≤ (format.leadingBit - 1 / 2) * 2 ^ exponent := by
  have hlt : (other : ℚ) ≤ 2 * format.leadingBit - 1 := by
    have h : (other : ℚ) + 1 ≤ 2 * format.leadingBit := by exact_mod_cast hother.significand_lt
    linarith
  have hhalf : (2 : ℚ) ^ power ≤ 2 ^ exponent / 2 := by
    calc (2 : ℚ) ^ power ≤ 2 ^ (exponent - 1) := zpow_le_zpow_right₀ (by norm_num) (by omega)
      _ = 2 ^ exponent / 2 := by rw [zpow_sub₀ (by norm_num), zpow_one]
  calc (other * 2 ^ power : ℚ)
      ≤ (2 * format.leadingBit - 1) * (2 ^ exponent / 2) := by
        apply mul_le_mul hlt hhalf (two_zpow_pos power).le
        exact le_trans (Nat.cast_nonneg other) hlt
    _ = (format.leadingBit - 1 / 2) * 2 ^ exponent := by ring

theorem Canonical.leadingBit_le (hcanonical : format.Canonical significand exponent)
    (hexponent : format.leastExponent < exponent) : format.leadingBit ≤ significand := by
  rcases hcanonical.full with hfull | hleast
  · exact hfull
  · omega

/-- A number whose exponent is not lower is a multiple of the unit. -/
theorem exists_multiple (other : ℕ) (hpower : exponent ≤ power) :
    ∃ multiple : ℕ, (other * 2 ^ power : ℚ) = multiple * 2 ^ exponent := by
  obtain ⟨shift, rfl⟩ : ∃ shift : ℕ, power = exponent + shift :=
    ⟨(power - exponent).toNat, by omega⟩
  refine ⟨other * 2 ^ shift, ?_⟩
  rw [zpow_add₀ (by norm_num), zpow_natCast]
  push_cast
  ring

theorem Canonical.unit_le_of_lt (hcanonical : format.Canonical significand exponent)
    (hother : format.Canonical other power)
    (hlt : (significand * 2 ^ exponent : ℚ) < other * 2 ^ power) :
    (significand + 1 : ℚ) * 2 ^ exponent ≤ other * 2 ^ power := by
  rcases le_or_gt exponent power with hpower | hpower
  · obtain ⟨multiple, hmultiple⟩ := exists_multiple other hpower
    rw [hmultiple] at hlt ⊢
    have hless : significand < multiple := by
      exact_mod_cast (mul_lt_mul_iff_left₀ (two_zpow_pos exponent)).mp hlt
    apply mul_le_mul_of_nonneg_right _ (two_zpow_pos exponent).le
    exact_mod_cast hless
  · exfalso
    have hbelow := hother.le_of_power_lt hpower
    have hfull : (format.leadingBit : ℚ) ≤ significand := by
      exact_mod_cast hcanonical.leadingBit_le (hother.least_le.trans_lt hpower)
    have habove : ((format.leadingBit : ℚ) - 1 / 2) * 2 ^ exponent ≤ significand * 2 ^ exponent :=
      mul_le_mul_of_nonneg_right (by linarith) (two_zpow_pos exponent).le
    linarith

/-- The way down to the next number, in units. -/
def stepBelow (format : Format) (significand : ℕ) (exponent : ℤ) : ℚ :=
  if significand = format.leadingBit ∧ format.leastExponent < exponent then 1 / 2 else 1

theorem lowerEnd_eq (format : Format) (significand : ℕ) (exponent : ℤ) :
    format.lowerEnd significand exponent =
      (significand - format.stepBelow significand exponent / 2) * 2 ^ exponent := by
  unfold lowerEnd stepBelow
  split_ifs <;> norm_num

theorem Canonical.le_unit_of_lt (hcanonical : format.Canonical significand exponent)
    (hother : format.Canonical other power)
    (hlt : (other * 2 ^ power : ℚ) < significand * 2 ^ exponent) :
    (other * 2 ^ power : ℚ) ≤
      (significand - format.stepBelow significand exponent) * 2 ^ exponent := by
  have hunit := (two_zpow_pos exponent).le
  rcases le_or_gt exponent power with hpower | hpower
  · obtain ⟨multiple, hmultiple⟩ := exists_multiple other hpower
    rw [hmultiple] at hlt ⊢
    have hless : multiple < significand := by
      exact_mod_cast (mul_lt_mul_iff_left₀ (two_zpow_pos exponent)).mp hlt
    have hstep : (multiple : ℚ) + 1 ≤ significand := by exact_mod_cast hless
    apply mul_le_mul_of_nonneg_right _ hunit
    unfold stepBelow
    split_ifs <;> linarith
  · have hexponent := hother.least_le.trans_lt hpower
    refine (hother.le_of_power_lt hpower).trans (mul_le_mul_of_nonneg_right ?_ hunit)
    unfold stepBelow
    split_ifs with hfirst
    · rw [hfirst.1]
    · have hmore : format.leadingBit + 1 ≤ significand :=
        Nat.lt_of_le_of_ne (hcanonical.leadingBit_le hexponent)
          (fun h => hfirst ⟨h.symm, hexponent⟩)
      have hmoreQ : (format.leadingBit : ℚ) + 1 ≤ significand := by exact_mod_cast hmore
      linarith

theorem Canonical.exists_above (hcanonical : format.Canonical significand exponent) :
    ∃ next power, format.Canonical next power ∧
      (next * 2 ^ power : ℚ) = (significand + 1) * 2 ^ exponent := by
  rcases Nat.lt_or_ge (significand + 1) (2 * format.leadingBit) with hroom | hcarry
  · refine ⟨significand + 1, exponent, ⟨hroom, hcanonical.least_le, ?_⟩, by push_cast; rfl⟩
    exact hcanonical.full.imp_left (fun hfull => hfull.trans (Nat.le_succ _))
  · have hfilled : (significand + 1 : ℚ) = 2 * format.leadingBit := by
      have hlt := hcanonical.significand_lt
      exact_mod_cast (show significand + 1 = 2 * format.leadingBit by omega)
    refine ⟨format.leadingBit, exponent + 1, ⟨?_, ?_, .inl le_rfl⟩, ?_⟩
    · have := leadingBit_pos format
      omega
    · exact hcanonical.least_le.trans (by omega)
    · rw [hfilled, zpow_add₀ (by norm_num), zpow_one]
      ring

theorem Canonical.exists_below (hcanonical : format.Canonical significand exponent)
    (hpos : 0 < significand) :
    ∃ next power, format.Canonical next power ∧
      (next * 2 ^ power : ℚ) =
        (significand - format.stepBelow significand exponent) * 2 ^ exponent := by
  unfold stepBelow
  split_ifs with hfirst
  · obtain ⟨rfl, hexponent⟩ := hfirst
    refine ⟨2 * format.leadingBit - 1, exponent - 1, ⟨by omega, by omega, .inl (by omega)⟩, ?_⟩
    rw [Nat.cast_sub (by omega), zpow_sub₀ (by norm_num), zpow_one]
    push_cast
    ring
  · refine ⟨significand - 1, exponent, ⟨?_, hcanonical.least_le, ?_⟩, ?_⟩
    · exact (Nat.sub_le _ _).trans_lt hcanonical.significand_lt
    · rcases eq_or_lt_of_le hcanonical.least_le with hleast | hlt
      · exact .inr hleast.symm
      · have hfull := hcanonical.leadingBit_le hlt
        have hne : significand ≠ format.leadingBit := fun heq => hfirst ⟨heq, hlt⟩
        exact .inl (by omega)
    · rw [Nat.cast_sub hpos]
      push_cast
      rfl

end Neighbours

/-! ## Midpoints -/

section Midpoints

variable {low high number : ℚ}

theorem lower_closer_iff (hlt : low < high) :
    |low - number| ≤ |high - number| ↔ number ≤ (low + high) / 2 := by
  have hsquares : (high - number) ^ 2 - (low - number) ^ 2 =
      2 * (high - low) * ((low + high) / 2 - number) := by ring
  have hpos : 0 < 2 * (high - low) := by linarith
  rw [← sq_le_sq, ← sub_nonneg, hsquares, mul_nonneg_iff_of_pos_left hpos, sub_nonneg]

theorem upper_closer_iff (hlt : low < high) :
    |high - number| ≤ |low - number| ↔ (low + high) / 2 ≤ number := by
  have hsquares : (low - number) ^ 2 - (high - number) ^ 2 =
      2 * (high - low) * (number - (low + high) / 2) := by ring
  have hpos : 0 < 2 * (high - low) := by linarith
  rw [← sq_le_sq, ← sub_nonneg, hsquares, mul_nonneg_iff_of_pos_left hpos, sub_nonneg]

theorem tie_iff (hlt : low < high) :
    |low - number| = |high - number| ↔ number = (low + high) / 2 := by
  rw [le_antisymm_iff, lower_closer_iff hlt, upper_closer_iff hlt, ← le_antisymm_iff]

end Midpoints

section Interval

variable {format : Format} {significand : ℕ} {exponent : ℤ} {number : ℚ}

theorem midpoint_above (significand : ℕ) (exponent : ℤ) :
    ((significand * 2 ^ exponent : ℚ) + (significand + 1) * 2 ^ exponent) / 2 =
      upperEnd significand exponent := by
  unfold upperEnd
  ring

theorem midpoint_below (format : Format) (significand : ℕ) (exponent : ℤ) :
    ((significand - format.stepBelow significand exponent) * 2 ^ exponent +
      significand * 2 ^ exponent) / 2 = format.lowerEnd significand exponent := by
  rw [lowerEnd_eq]
  ring

theorem RoundsTo.nearest (hcanonical : format.Canonical significand exponent)
    (hrounds : format.RoundsTo significand exponent number) :
    format.Nearest significand exponent number := by
  have hupper := hrounds.upper
  have hlower := hrounds.lower
  rw [← midpoint_above] at hupper
  rw [← midpoint_below] at hlower
  constructor
  · intro other power hother
    rcases lt_trichotomy (significand * 2 ^ exponent : ℚ) (other * 2 ^ power) with
      hlt | heq | hlt
    · have hnext := hcanonical.unit_le_of_lt hother hlt
      rw [lower_closer_iff hlt]
      linarith
    · rw [heq]
    · have hnext := hcanonical.le_unit_of_lt hother hlt
      rw [upper_closer_iff hlt]
      linarith
  · intro other power hother hne htie
    rcases lt_or_gt_of_ne hne with hlt | hlt
    · have hnext := hcanonical.le_unit_of_lt hother hlt
      rw [tie_iff hlt] at htie
      apply hrounds.lower_even
      rw [← midpoint_below]
      linarith
    · have hnext := hcanonical.unit_le_of_lt hother hlt
      rw [eq_comm, tie_iff hlt] at htie
      apply hrounds.upper_even
      rw [← midpoint_above]
      linarith

theorem Nearest.roundsTo (hcanonical : format.Canonical significand exponent)
    (hnonneg : 0 ≤ number) (hnearest : format.Nearest significand exponent number) :
    format.RoundsTo significand exponent number := by
  have hunit := two_zpow_pos exponent
  obtain ⟨above, power, habove, hvalue⟩ := hcanonical.exists_above
  have hlt : (significand * 2 ^ exponent : ℚ) < above * 2 ^ power := by
    rw [hvalue]
    linarith
  have hupper := (lower_closer_iff hlt).mp (hnearest.closest above power habove)
  rw [hvalue, midpoint_above] at hupper
  have hupperEven : number = upperEnd significand exponent → significand % 2 = 0 := by
    intro hend
    apply hnearest.even above power habove hlt.ne'
    rw [eq_comm, tie_iff hlt, hvalue, midpoint_above]
    exact hend
  rcases Nat.eq_zero_or_pos significand with rfl | hpos
  · refine ⟨le_trans ?_ hnonneg, hupper, fun _ => rfl, hupperEven⟩
    have hfirst : ¬ (0 = format.leadingBit ∧ format.leastExponent < exponent) :=
      fun h => (leadingBit_pos format).ne h.1
    rw [lowerEnd, if_neg hfirst]
    norm_num
    exact hunit.le
  · obtain ⟨below, power', hbelow, hvalue'⟩ := hcanonical.exists_below hpos
    have hstep : 0 < format.stepBelow significand exponent := by
      unfold stepBelow
      split_ifs <;> norm_num
    have hlt' : (below * 2 ^ power' : ℚ) < significand * 2 ^ exponent := by
      rw [hvalue']
      exact mul_lt_mul_of_pos_right (by linarith) hunit
    have hlower := (upper_closer_iff hlt').mp (hnearest.closest below power' hbelow)
    rw [hvalue', midpoint_below] at hlower
    refine ⟨hlower, hupper, fun hend => ?_, hupperEven⟩
    apply hnearest.even below power' hbelow hlt'.ne
    rw [tie_iff hlt', hvalue', midpoint_below]
    exact hend

theorem nearest_iff_roundsTo (hcanonical : format.Canonical significand exponent)
    (hnonneg : 0 ≤ number) :
    format.Nearest significand exponent number ↔ format.RoundsTo significand exponent number :=
  ⟨fun hnearest => hnearest.roundsTo hcanonical hnonneg, fun hrounds => hrounds.nearest hcanonical⟩

end Interval

/-! ## Every quotient has a nearest number -/

theorem roundDiv_bounds (numerator : ℕ) {denominator : ℕ} (hpos : 0 < denominator) :
    2 * roundDiv numerator denominator * denominator ≤ 2 * numerator + denominator ∧
      2 * numerator ≤ 2 * roundDiv numerator denominator * denominator + denominator ∧
      (2 * numerator + denominator = 2 * roundDiv numerator denominator * denominator ∨
        2 * numerator = 2 * roundDiv numerator denominator * denominator + denominator →
          roundDiv numerator denominator % 2 = 0) := by
  have hsplit := Nat.div_add_mod numerator denominator
  have hmod := Nat.mod_lt numerator hpos
  unfold roundDiv
  generalize numerator / denominator = quotient at *
  generalize numerator % denominator = rest at *
  have hfloor : 2 * quotient * denominator = 2 * (denominator * quotient) := by ring
  have hceiling : 2 * (quotient + 1) * denominator =
      2 * (denominator * quotient) + 2 * denominator := by ring
  rcases Nat.mod_two_eq_zero_or_one quotient with heven | hodd
  · simp only [heven, Nat.add_zero]
    split_ifs <;> simp only [hfloor, hceiling] <;> omega
  · simp only [hodd]
    split_ifs <;> simp only [hfloor, hceiling] <;> omega

theorem roundDiv_near (numerator : ℕ) {denominator : ℕ} (hpos : 0 < denominator) :
    (roundDiv numerator denominator : ℚ) - 1 / 2 ≤ numerator / denominator ∧
      (numerator : ℚ) / denominator ≤ roundDiv numerator denominator + 1 / 2 ∧
      ((numerator : ℚ) / denominator = roundDiv numerator denominator - 1 / 2 ∨
        (numerator : ℚ) / denominator = roundDiv numerator denominator + 1 / 2 →
          roundDiv numerator denominator % 2 = 0) := by
  have hposQ : (0 : ℚ) < denominator := by exact_mod_cast hpos
  obtain ⟨hlow, hhigh, htie⟩ := roundDiv_bounds numerator hpos
  have hlowQ : (2 * roundDiv numerator denominator * denominator : ℚ) ≤
      2 * numerator + denominator := by exact_mod_cast hlow
  have hhighQ : (2 * numerator : ℚ) ≤
      2 * roundDiv numerator denominator * denominator + denominator := by exact_mod_cast hhigh
  refine ⟨?_, ?_, ?_⟩
  · rw [le_div_iff₀ hposQ]
    linarith
  · rw [div_le_iff₀ hposQ]
    linarith
  · rw [div_eq_iff hposQ.ne', div_eq_iff hposQ.ne']
    rintro (hbelow | habove)
    · apply htie
      left
      have h : (2 * numerator + denominator : ℚ) =
          2 * roundDiv numerator denominator * denominator := by linarith
      exact_mod_cast h
    · apply htie
      right
      have h : (2 * numerator : ℚ) =
          2 * roundDiv numerator denominator * denominator + denominator := by linarith
      exact_mod_cast h

section Existence

variable {format : Format} {significand : ℕ} {exponent : ℤ} {number : ℚ}

/-- A significand near to a number at the exponent of the number, if it has not filled up. -/
theorem canonical_of_near (hleast : format.leastExponent ≤ exponent)
    (hlow : format.leastExponent < exponent → format.leadingBit * 2 ^ exponent ≤ number)
    (hroom : significand < 2 * format.leadingBit)
    (habove : number ≤ (significand + 1 / 2) * 2 ^ exponent) :
    format.Canonical significand exponent := by
  refine ⟨hroom, hleast, ?_⟩
  rcases eq_or_lt_of_le hleast with heq | hlt
  · exact .inr heq.symm
  · left
    have hbits : (format.leadingBit : ℚ) ≤ significand + 1 / 2 :=
      le_of_mul_le_mul_right ((hlow hlt).trans habove) (two_zpow_pos exponent)
    have hless : (format.leadingBit : ℚ) < significand + 1 := by linarith
    exact Nat.lt_succ_iff.mp (by exact_mod_cast hless)

theorem roundsTo_of_near
    (hlow : format.leastExponent < exponent → format.leadingBit * 2 ^ exponent ≤ number)
    (hbelow : ((significand : ℚ) - 1 / 2) * 2 ^ exponent ≤ number)
    (habove : number ≤ (significand + 1 / 2) * 2 ^ exponent)
    (htie : number = (significand - 1 / 2) * 2 ^ exponent ∨
      number = (significand + 1 / 2) * 2 ^ exponent → significand % 2 = 0) :
    format.RoundsTo significand exponent number := by
  have hunit := two_zpow_pos exponent
  by_cases hfirst : significand = format.leadingBit ∧ format.leastExponent < exponent
  · have hlower : format.lowerEnd significand exponent < number := by
      rw [lowerEnd, if_pos hfirst]
      have hstart := hlow hfirst.2
      rw [← hfirst.1] at hstart
      linarith
    exact ⟨hlower.le, habove, fun heq => absurd heq hlower.ne', fun heq => htie (.inr heq)⟩
  · have hlower : format.lowerEnd significand exponent = (significand - 1 / 2) * 2 ^ exponent := by
      rw [lowerEnd, if_neg hfirst]
    rw [← hlower] at hbelow htie
    exact ⟨hbelow, habove, fun heq => htie (.inl heq), fun heq => htie (.inr heq)⟩

/-- A significand that has filled up stands for the first number of the next range. -/
theorem roundsTo_of_filled (hbits : 0 < format.fractionBits)
    (hleast : format.leastExponent ≤ exponent)
    (hbelow : (2 * format.leadingBit - 1 / 2) * 2 ^ exponent ≤ number)
    (hhigh : number < 2 * format.leadingBit * 2 ^ exponent) :
    format.Canonical format.leadingBit (exponent + 1) ∧
      format.RoundsTo format.leadingBit (exponent + 1) number := by
  have hbitPos := leadingBit_pos format
  have hunit := two_zpow_pos exponent
  have hdouble : (2 : ℚ) ^ (exponent + 1) = 2 * 2 ^ exponent := by
    rw [zpow_add₀ (by norm_num), zpow_one]
    ring
  have heven : format.leadingBit % 2 = 0 :=
    Nat.mod_eq_zero_of_dvd (dvd_pow_self 2 hbits.ne')
  have hlower : format.lowerEnd format.leadingBit (exponent + 1) ≤ number := by
    rw [lowerEnd, if_pos ⟨rfl, by omega⟩, hdouble]
    linarith
  have hupper : number ≤ upperEnd format.leadingBit (exponent + 1) := by
    rw [upperEnd, hdouble]
    linarith
  exact ⟨⟨by omega, by omega, .inl le_rfl⟩, hlower, hupper, fun _ => heven, fun _ => heven⟩

end Existence

theorem exists_roundsTo {format : Format} (hbits : 0 < format.fractionBits) (numerator : ℕ)
    {denominator : ℕ} (hdenominator : 0 < denominator) :
    ∃ significand exponent, format.Canonical significand exponent ∧
      format.RoundsTo significand exponent (numerator / denominator) := by
  rcases Nat.eq_zero_or_pos numerator with rfl | hnumerator
  · have hcanonical : format.Canonical 0 format.leastExponent := by
      have hbitPos := leadingBit_pos format
      exact ⟨by omega, le_rfl, .inr rfl⟩
    refine ⟨0, format.leastExponent, hcanonical, roundsTo_of_near ?_ ?_ ?_ fun _ => rfl⟩
    · exact fun hlt => absurd hlt (lt_irrefl _)
    · simp [(two_zpow_pos _).le]
    · simp [(two_zpow_pos _).le]
  · obtain ⟨hleast, hhigh, hlow⟩ := ratioExponent_spec format hnumerator hdenominator
    generalize format.ratioExponent numerator denominator = found at *
    have hunit := two_zpow_pos found
    obtain ⟨hbelow, habove, htie⟩ := roundDiv_near (scaled numerator denominator found).1
      (scaled_snd_pos numerator hdenominator found)
    rw [scaled_ratio] at hbelow habove htie
    generalize roundDiv (scaled numerator denominator found).1
      (scaled numerator denominator found).2 = significand at *
    generalize (numerator : ℚ) / denominator = number at *
    rw [le_div_iff₀ hunit] at hbelow
    rw [div_le_iff₀ hunit] at habove
    rw [div_eq_iff hunit.ne', div_eq_iff hunit.ne'] at htie
    have hstart : format.leastExponent < found → format.leadingBit * 2 ^ found ≤ number := by
      rw [leadingBit_cast, ← zpow_add₀ (by norm_num)]
      exact hlow
    have hend : number < 2 * format.leadingBit * 2 ^ found := by
      convert hhigh using 1
      rw [leadingBit_cast, zpow_add₀ (by norm_num), zpow_add₀ (by norm_num), zpow_one]
      ring
    rcases Nat.lt_or_ge significand (2 * format.leadingBit) with hroom | hfilled
    · exact ⟨significand, found, canonical_of_near hleast hstart hroom habove,
        roundsTo_of_near hstart hbelow habove htie⟩
    · have hfilledQ : (2 * format.leadingBit : ℚ) ≤ significand := by exact_mod_cast hfilled
      refine ⟨_, _, roundsTo_of_filled hbits hleast (le_trans ?_ hbelow) hend⟩
      exact mul_le_mul_of_nonneg_right (by linarith) hunit.le

end NoiseShader.Number.Format
