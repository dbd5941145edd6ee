import NoiseShader.Number.Binary32
import Mathlib.Tactic

/-!
# Rounding quotients

A quotient of whole numbers is rounded to the nearest number of a format, the
even one of two that are as near.  `Format.RoundsTo` describes the reals that
round to a number by the ends of their interval, and
`Format.roundRatio_of_roundsTo` says that the rounding finds the number for every
quotient in the interval.
-/

namespace NoiseShader.Number.Format

theorem roundDiv_eq_of_near {numerator denominator whole : ℕ} (hpos : 0 < denominator)
    (hlow : (whole : ℚ) - 1 / 2 ≤ numerator / denominator)
    (hhigh : (numerator : ℚ) / denominator ≤ whole + 1 / 2)
    (htie : (numerator : ℚ) / denominator = whole - 1 / 2 ∨
      (numerator : ℚ) / denominator = whole + 1 / 2 → whole % 2 = 0) :
    roundDiv numerator denominator = whole := by
  have hposQ : (0 : ℚ) < denominator := by exact_mod_cast hpos
  have hlowNat : 2 * whole * denominator ≤ 2 * numerator + denominator := by
    rw [le_div_iff₀ hposQ] at hlow
    have h : (2 * whole * denominator : ℚ) ≤ 2 * numerator + denominator := by linarith
    exact_mod_cast h
  have hhighNat : 2 * numerator ≤ 2 * whole * denominator + denominator := by
    rw [div_le_iff₀ hposQ] at hhigh
    have h : (2 * numerator : ℚ) ≤ 2 * whole * denominator + denominator := by linarith
    exact_mod_cast h
  have htieLow : 2 * whole * denominator = 2 * numerator + denominator → whole % 2 = 0 := by
    intro h
    apply htie
    left
    have h' : (2 * whole * denominator : ℚ) = 2 * numerator + denominator := by exact_mod_cast h
    rw [div_eq_iff hposQ.ne']
    linarith
  have htieHigh : 2 * numerator = 2 * whole * denominator + denominator → whole % 2 = 0 := by
    intro h
    apply htie
    right
    have h' : (2 * numerator : ℚ) = 2 * whole * denominator + denominator := by exact_mod_cast h
    rw [div_eq_iff hposQ.ne']
    linarith
  have hsplit := Nat.div_add_mod numerator denominator
  have hmod := Nat.mod_lt numerator hpos
  unfold roundDiv
  simp only
  generalize numerator / denominator = quotient at *
  generalize numerator % denominator = rest at *
  have hquotient : quotient ≤ whole := by
    by_contra hlt
    have : (whole + 1) * denominator ≤ denominator * quotient := by
      rw [Nat.mul_comm denominator]
      exact Nat.mul_le_mul_right _ (by omega)
    nlinarith
  have hwhole : whole ≤ quotient + 1 := by
    by_contra hlt
    have : denominator * (quotient + 2) ≤ whole * denominator := by
      rw [Nat.mul_comm denominator]
      exact Nat.mul_le_mul_right _ (by omega)
    nlinarith
  rcases Nat.lt_or_ge whole (quotient + 1) with hlt | hge
  · have heq : whole = quotient := by omega
    subst heq
    have hcomm : 2 * whole * denominator = 2 * (denominator * whole) := by ring
    split_ifs <;> omega
  · have heq : whole = quotient + 1 := by omega
    subst heq
    have hcomm : 2 * (quotient + 1) * denominator =
        2 * (denominator * quotient) + 2 * denominator := by ring
    split_ifs <;> omega

theorem scaled_ratio (numerator denominator : ℕ) (exponent : ℤ) :
    ((scaled numerator denominator exponent).1 : ℚ) / (scaled numerator denominator exponent).2 =
      numerator / denominator / 2 ^ exponent := by
  unfold scaled
  split
  next hneg =>
    obtain ⟨shift, rfl⟩ : ∃ shift : ℕ, exponent = -(shift : ℤ) := ⟨(-exponent).toNat, by omega⟩
    simp only [neg_neg, Int.toNat_natCast, Nat.shiftLeft_eq, zpow_neg, zpow_natCast]
    push_cast
    field_simp
  next hneg =>
    obtain ⟨shift, rfl⟩ := Int.eq_ofNat_of_zero_le (not_lt.mp hneg)
    simp only [Int.toNat_natCast, Nat.shiftLeft_eq, zpow_natCast]
    push_cast
    rw [div_div]

theorem scaled_snd_pos (numerator : ℕ) {denominator : ℕ} (hpos : 0 < denominator) (exponent : ℤ) :
    0 < (scaled numerator denominator exponent).2 := by
  unfold scaled
  split
  next => exact hpos
  next =>
    simp only [Nat.shiftLeft_eq]
    positivity

theorem two_zpow_pos (exponent : ℤ) : (0 : ℚ) < 2 ^ exponent := zpow_pos (by norm_num) exponent

/-- A quotient lies between the powers of two that the logarithms of its parts give. -/
theorem ratio_log2_bounds {numerator denominator : ℕ} (hn : 0 < numerator) (hd : 0 < denominator) :
    (2 : ℚ) ^ ((numerator.log2 : ℤ) - denominator.log2 - 1) < numerator / denominator ∧
      (numerator : ℚ) / denominator < 2 ^ ((numerator.log2 : ℤ) - denominator.log2 + 1) := by
  have hdQ : (0 : ℚ) < denominator := by exact_mod_cast hd
  have hnLow : (2 : ℚ) ^ numerator.log2 ≤ numerator := by
    exact_mod_cast Nat.log2_self_le hn.ne'
  have hnHigh : (numerator : ℚ) < 2 ^ (numerator.log2 + 1) := by
    exact_mod_cast @Nat.lt_log2_self numerator
  have hdLow : (2 : ℚ) ^ denominator.log2 ≤ denominator := by
    exact_mod_cast Nat.log2_self_le hd.ne'
  have hdHigh : (denominator : ℚ) < 2 ^ (denominator.log2 + 1) := by
    exact_mod_cast @Nat.lt_log2_self denominator
  constructor
  · rw [lt_div_iff₀ hdQ]
    calc (2 : ℚ) ^ ((numerator.log2 : ℤ) - denominator.log2 - 1) * denominator
        < 2 ^ ((numerator.log2 : ℤ) - denominator.log2 - 1) * 2 ^ (denominator.log2 + 1) := by
          exact mul_lt_mul_of_pos_left hdHigh (two_zpow_pos _)
      _ = 2 ^ numerator.log2 := by
          rw [← zpow_natCast, ← zpow_natCast, ← zpow_add₀ (by norm_num)]
          congr 1
          push_cast
          ring
      _ ≤ numerator := hnLow
  · rw [div_lt_iff₀ hdQ]
    calc (numerator : ℚ) < 2 ^ (numerator.log2 + 1) := hnHigh
      _ = 2 ^ ((numerator.log2 : ℤ) - denominator.log2 + 1) * 2 ^ denominator.log2 := by
          rw [← zpow_natCast, ← zpow_natCast, ← zpow_add₀ (by norm_num)]
          congr 1
          push_cast
          ring
      _ ≤ 2 ^ ((numerator.log2 : ℤ) - denominator.log2 + 1) * denominator := by
          exact mul_le_mul_of_nonneg_left hdLow (two_zpow_pos _).le

theorem leadingBit_cast (format : Format) :
    (format.leadingBit : ℚ) = 2 ^ (format.fractionBits : ℤ) := by
  rw [zpow_natCast]
  unfold leadingBit powerOfTwo
  exact_mod_cast rfl

theorem leadingBit_pos (format : Format) : 0 < format.leadingBit :=
  Nat.pow_pos (by norm_num)

/-- The exponent found for a quotient gives it a significand of full length, unless it is the least
one. -/
theorem ratioExponent_spec (format : Format) {numerator denominator : ℕ} (hn : 0 < numerator)
    (hd : 0 < denominator) :
    format.leastExponent ≤ format.ratioExponent numerator denominator ∧
      (numerator : ℚ) / denominator <
        2 ^ (format.fractionBits + 1 + format.ratioExponent numerator denominator : ℤ) ∧
      (format.leastExponent < format.ratioExponent numerator denominator →
        (2 : ℚ) ^ (format.fractionBits + format.ratioExponent numerator denominator : ℤ) ≤
          numerator / denominator) := by
  obtain ⟨hlow, hhigh⟩ := ratio_log2_bounds hn hd
  unfold ratioExponent
  simp only
  set guess : ℤ := (numerator.log2 : ℤ) - denominator.log2 - format.fractionBits with hguess
  have hratio := scaled_ratio numerator denominator guess
  have hbottom := scaled_snd_pos numerator hd guess
  generalize scaled numerator denominator guess = pair at *
  obtain ⟨top, bottom⟩ := pair
  simp only at *
  have hbottomQ : (0 : ℚ) < bottom := by exact_mod_cast hbottom
  have hcompare : top < bottom * format.leadingBit ↔
      (numerator : ℚ) / denominator < 2 ^ (format.fractionBits + guess : ℤ) := by
    have hcast : top < bottom * format.leadingBit ↔ (top : ℚ) < bottom * format.leadingBit := by
      exact_mod_cast Iff.rfl
    rw [hcast, mul_comm, ← div_lt_iff₀ hbottomQ, hratio, leadingBit_cast,
      div_lt_iff₀ (two_zpow_pos _), ← zpow_add₀ (by norm_num)]
  by_cases hsmall : top < bottom * format.leadingBit
  · rw [if_pos hsmall]
    rw [hcompare] at hsmall
    refine ⟨le_max_right _ _, ?_, ?_⟩
    · refine hsmall.trans_le (zpow_le_zpow_right₀ (by norm_num) ?_)
      omega
    · intro hlt
      refine le_trans ?_ hlow.le
      apply zpow_le_zpow_right₀ (by norm_num)
      omega
  · rw [if_neg hsmall]
    rw [hcompare, not_lt] at hsmall
    refine ⟨le_max_right _ _, ?_, ?_⟩
    · refine hhigh.trans_le (zpow_le_zpow_right₀ (by norm_num) ?_)
      omega
    · intro hlt
      refine le_trans ?_ hsmall
      apply zpow_le_zpow_right₀ (by norm_num)
      omega

/-- A significand and an exponent as a word of the format holds them. -/
structure Canonical (format : Format) (significand : ℕ) (exponent : ℤ) : Prop where
  significand_lt : significand < 2 * format.leadingBit
  least_le : format.leastExponent ≤ exponent
  full : format.leadingBit ≤ significand ∨ exponent = format.leastExponent

/-- The least number that may round to `significand * 2 ^ exponent`.  Below the first number of a
range of exponents the next one is only half a unit away. -/
def lowerEnd (format : Format) (significand : ℕ) (exponent : ℤ) : ℚ :=
  (significand -
    if significand = format.leadingBit ∧ format.leastExponent < exponent then 1 / 4 else 1 / 2) *
      2 ^ exponent

/-- The greatest number that may round to `significand * 2 ^ exponent`. -/
def upperEnd (significand : ℕ) (exponent : ℤ) : ℚ := (significand + 1 / 2) * 2 ^ exponent

/-- The numbers that round to `significand * 2 ^ exponent`: those between the two ends, and the
ends themselves where the significand is even. -/
structure RoundsTo (format : Format) (significand : ℕ) (exponent : ℤ) (number : ℚ) : Prop where
  lower : format.lowerEnd significand exponent ≤ number
  upper : number ≤ upperEnd significand exponent
  lower_even : number = format.lowerEnd significand exponent → significand % 2 = 0
  upper_even : number = upperEnd significand exponent → significand % 2 = 0

section Rounding

variable {format : Format} {significand : ℕ} {exponent : ℤ}

theorem lowerEnd_ge (format : Format) (significand : ℕ) (exponent : ℤ) :
    (significand - 1 / 2 : ℚ) * 2 ^ exponent ≤ format.lowerEnd significand exponent := by
  unfold lowerEnd
  apply mul_le_mul_of_nonneg_right _ (two_zpow_pos exponent).le
  split_ifs <;> linarith

theorem lowerEnd_pos (hpos : 0 < significand) : 0 < format.lowerEnd significand exponent := by
  have hsignificand : (1 : ℚ) ≤ significand := by exact_mod_cast hpos
  refine lt_of_lt_of_le ?_ (lowerEnd_ge format significand exponent)
  apply mul_pos _ (two_zpow_pos exponent)
  linarith

theorem RoundsTo.convex {low number high : ℚ} (hlow : format.RoundsTo significand exponent low)
    (hhigh : format.RoundsTo significand exponent high) (hle : low ≤ number)
    (hge : number ≤ high) : format.RoundsTo significand exponent number where
  lower := hlow.lower.trans hle
  upper := hge.trans hhigh.upper
  lower_even heq := hlow.lower_even (le_antisymm (heq ▸ hle) hlow.lower)
  upper_even heq := hhigh.upper_even (le_antisymm hhigh.upper (heq ▸ hge))

theorem roundsTo_self (format : Format) (significand : ℕ) (exponent : ℤ) :
    format.RoundsTo significand exponent (significand * 2 ^ exponent) := by
  have hunit := two_zpow_pos exponent
  have hlower : format.lowerEnd significand exponent < significand * 2 ^ exponent := by
    unfold lowerEnd
    apply mul_lt_mul_of_pos_right _ hunit
    split_ifs <;> linarith
  have hupper : (significand * 2 ^ exponent : ℚ) < upperEnd significand exponent := by
    unfold upperEnd
    exact mul_lt_mul_of_pos_right (by linarith) hunit
  exact ⟨hlower.le, hupper.le, fun heq => absurd heq hlower.ne', fun heq => absurd heq hupper.ne⟩

/-- The exponent at which a number is rounded is that of its result, except just below the first
number of a range of exponents. -/
theorem Canonical.exponent_cases (hcanonical : format.Canonical significand exponent)
    {number : ℚ} {found : ℤ} (hrounds : format.RoundsTo significand exponent number)
    (hleast : format.leastExponent ≤ found)
    (hhigh : number < 2 ^ (format.fractionBits + 1 + found : ℤ))
    (hlow : format.leastExponent < found → (2 : ℚ) ^ (format.fractionBits + found : ℤ) ≤ number) :
    found = exponent ∨
      (found = exponent - 1 ∧ significand = format.leadingBit ∧
        format.leastExponent < exponent) := by
  have hbit := leadingBit_cast format
  have hsignificand : (significand : ℚ) + 1 ≤ 2 * format.leadingBit := by
    exact_mod_cast hcanonical.significand_lt
  rcases lt_trichotomy found exponent with hless | heq | hgreater
  · right
    have hexponent : format.leastExponent < exponent := by omega
    have hfull : format.leadingBit ≤ significand := by
      rcases hcanonical.full with h | h
      · exact h
      · omega
    have hfullQ : (format.leadingBit : ℚ) ≤ significand := by exact_mod_cast hfull
    have hbitOne : (1 : ℚ) ≤ format.leadingBit := by exact_mod_cast leadingBit_pos format
    have hupper : number < format.leadingBit * 2 ^ exponent := by
      rw [hbit, ← zpow_add₀ (by norm_num)]
      refine hhigh.trans_le (zpow_le_zpow_right₀ (by norm_num) ?_)
      omega
    have hfirst : significand = format.leadingBit := by
      by_contra hne
      have hstrict : (format.leadingBit : ℚ) + 1 ≤ significand := by
        exact_mod_cast Nat.lt_of_le_of_ne hfull (Ne.symm hne)
      have hge := (lowerEnd_ge format significand exponent).trans hrounds.lower
      have : (format.leadingBit : ℚ) * 2 ^ exponent ≤ (significand - 1 / 2) * 2 ^ exponent := by
        apply mul_le_mul_of_nonneg_right _ (two_zpow_pos exponent).le
        linarith
      linarith
    refine ⟨?_, hfirst, hexponent⟩
    by_contra hne
    have hhalf : number < format.leadingBit / 2 * 2 ^ exponent := by
      have hsplit : (format.leadingBit : ℚ) / 2 * 2 ^ exponent =
          2 ^ (format.fractionBits - 1 + exponent : ℤ) := by
        rw [hbit, zpow_add₀ (by norm_num), zpow_sub₀ (by norm_num), zpow_one]
      rw [hsplit]
      refine hhigh.trans_le (zpow_le_zpow_right₀ (by norm_num) ?_)
      omega
    have hge := (lowerEnd_ge format significand exponent).trans hrounds.lower
    have : (format.leadingBit : ℚ) / 2 * 2 ^ exponent ≤ (significand - 1 / 2) * 2 ^ exponent := by
      apply mul_le_mul_of_nonneg_right _ (two_zpow_pos exponent).le
      linarith
    linarith
  · exact Or.inl heq
  · exfalso
    have hge := hlow (by have := hcanonical.least_le; omega)
    have hle := hrounds.upper
    have hlt : upperEnd significand exponent < 2 ^ (format.fractionBits + found : ℤ) := by
      calc upperEnd significand exponent
          < 2 * format.leadingBit * 2 ^ exponent := by
            unfold upperEnd
            apply mul_lt_mul_of_pos_right _ (two_zpow_pos exponent)
            linarith
        _ = 2 ^ (format.fractionBits + 1 + exponent : ℤ) := by
            rw [hbit, zpow_add₀ (by norm_num), zpow_add₀ (by norm_num), zpow_one]
            ring
        _ ≤ 2 ^ (format.fractionBits + found : ℤ) := by
            apply zpow_le_zpow_right₀ (by norm_num)
            omega
    linarith

/-- A significand that filled up while rounding stands for the first number of the next range. -/
theorem encode_carry (negative : Bool) (hexponent : format.leastExponent < exponent) :
    format.encode negative (2 * format.leadingBit) (exponent - 1) =
      format.encode negative format.leadingBit exponent := by
  have hpos := leadingBit_pos format
  have hfield : (exponent - 1 - format.leastExponent).toNat + 1 =
      (exponent - format.leastExponent).toNat := by omega
  have hdouble : ¬ 2 * format.leadingBit < format.leadingBit := by omega
  unfold encode
  rw [if_neg hdouble, if_neg (lt_irrefl format.leadingBit), hfield]
  have hmagnitude : (exponent - format.leastExponent).toNat * format.leadingBit +
      (2 * format.leadingBit - format.leadingBit) =
      ((exponent - format.leastExponent).toNat + 1) * format.leadingBit +
        (format.leadingBit - format.leadingBit) := by
    rw [Nat.add_mul, Nat.one_mul, Nat.sub_self, Nat.add_zero]
    omega
  simp only [hmagnitude]

theorem roundRatio_zero (format : Format) (negative : Bool) (denominator : ℕ) (exponent : ℤ) :
    format.roundRatio negative 0 denominator = format.encode negative 0 exponent := by
  unfold roundRatio encode
  rw [if_pos rfl, if_pos (leadingBit_pos format), Nat.add_zero]

theorem RoundsTo.significand_eq_zero (hrounds : format.RoundsTo significand exponent 0) :
    significand = 0 := by
  by_contra hne
  have hlower := hrounds.lower
  have hpos : 0 < format.lowerEnd significand exponent := lowerEnd_pos (Nat.pos_of_ne_zero hne)
  linarith

theorem roundRatio_of_roundsTo (hcanonical : format.Canonical significand exponent)
    (negative : Bool) {numerator denominator : ℕ} (hdenominator : 0 < denominator)
    (hrounds : format.RoundsTo significand exponent (numerator / denominator)) :
    format.roundRatio negative numerator denominator =
      format.encode negative significand exponent := by
  rcases Nat.eq_zero_or_pos numerator with rfl | hnumerator
  · rw [Nat.cast_zero, zero_div] at hrounds
    rw [hrounds.significand_eq_zero, roundRatio_zero]
  obtain ⟨hleast, hhigh, hlow⟩ := ratioExponent_spec format hnumerator hdenominator
  unfold roundRatio
  rw [if_neg hnumerator.ne']
  simp only
  generalize format.ratioExponent numerator denominator = found at *
  have hscaled := scaled_ratio numerator denominator found
  have hbottom := scaled_snd_pos numerator hdenominator found
  generalize scaled numerator denominator found = pair at *
  obtain ⟨top, bottom⟩ := pair
  simp only at *
  rcases hcanonical.exponent_cases hrounds hleast hhigh hlow with rfl | ⟨rfl, rfl, hexponent⟩
  · have hround : roundDiv top bottom = significand := by
      apply roundDiv_eq_of_near hbottom
      · rw [hscaled, le_div_iff₀ (two_zpow_pos found)]
        exact (lowerEnd_ge format significand found).trans hrounds.lower
      · rw [hscaled, div_le_iff₀ (two_zpow_pos found)]
        exact hrounds.upper
      · rw [hscaled, div_eq_iff (two_zpow_pos found).ne', div_eq_iff (two_zpow_pos found).ne']
        rintro (htie | htie)
        · apply hrounds.lower_even
          apply le_antisymm _ hrounds.lower
          rw [htie]
          exact lowerEnd_ge format significand found
        · exact hrounds.upper_even htie
    rw [hround]
  · have hround : roundDiv top bottom = 2 * format.leadingBit := by
      have hlower : (format.leadingBit - 1 / 4 : ℚ) * 2 ^ exponent ≤ numerator / denominator := by
        have h := hrounds.lower
        unfold lowerEnd at h
        rwa [if_pos ⟨rfl, hexponent⟩] at h
      have hhalf : (2 : ℚ) ^ exponent = 2 * 2 ^ (exponent - 1) := by
        rw [zpow_sub₀ (by norm_num), zpow_one]
        ring
      have hbit := leadingBit_cast format
      have hupper : (numerator : ℚ) / denominator < 2 * format.leadingBit * 2 ^ (exponent - 1) := by
        rw [hbit]
        convert hhigh using 1
        rw [zpow_add₀ (by norm_num), zpow_add₀ (by norm_num), zpow_one]
        ring
      apply roundDiv_eq_of_near hbottom
      · rw [hscaled, le_div_iff₀ (two_zpow_pos _)]
        push_cast
        rw [hhalf] at hlower
        linarith
      · rw [hscaled, div_le_iff₀ (two_zpow_pos _)]
        push_cast
        have := two_zpow_pos (exponent - 1)
        linarith
      · intro
        omega
    rw [hround]
    exact encode_carry negative hexponent

end Rounding

end NoiseShader.Number.Format
