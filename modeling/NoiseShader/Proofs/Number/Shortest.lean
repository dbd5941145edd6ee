import NoiseShader.Number.Decimal
import NoiseShader.Proofs.Number.Rounding
import Mathlib.Tactic

/-!
# Shortest decimals

The search for the shortest decimal of a number stays inside the interval of
reals that round to the number.  It starts with powers of ten that may be too
coarse and always ends: at the finest power of ten that is tried, a multiple
lies in the interval.
-/

namespace NoiseShader.Number

theorem powerOfTen_zpow (exponent : ℤ) :
    (powerOfTen exponent.toNat : ℚ) / powerOfTen (-exponent).toNat = 10 ^ exponent := by
  unfold powerOfTen
  rcases le_total 0 exponent with hsign | hsign
  · obtain ⟨n, rfl⟩ := Int.eq_ofNat_of_zero_le hsign
    simp
  · obtain ⟨n, rfl⟩ : ∃ n : ℕ, exponent = -(n : ℤ) := ⟨(-exponent).toNat, by omega⟩
    simp

theorem powerOfTwo_zpow (exponent : ℤ) :
    (powerOfTwo exponent.toNat : ℚ) / powerOfTwo (-exponent).toNat = 2 ^ exponent := by
  unfold powerOfTwo
  rcases le_total 0 exponent with hsign | hsign
  · obtain ⟨n, rfl⟩ := Int.eq_ofNat_of_zero_le hsign
    simp
  · obtain ⟨n, rfl⟩ : ∃ n : ℕ, exponent = -(n : ℤ) := ⟨(-exponent).toNat, by omega⟩
    simp

theorem powerOfTen_pos (n : ℕ) : 0 < powerOfTen n := Nat.pow_pos (by norm_num)

theorem powerOfTwo_pos (n : ℕ) : 0 < powerOfTwo n := Nat.pow_pos (by norm_num)

/-- Powers of ten and of two are compared by whole numbers. -/
theorem ten_zpow_lt_two_zpow_iff (decimal binary : ℤ) :
    (10 : ℚ) ^ decimal < 2 ^ binary ↔
      powerOfTen decimal.toNat * powerOfTwo (-binary).toNat <
        powerOfTwo binary.toNat * powerOfTen (-decimal).toNat := by
  rw [← powerOfTen_zpow, ← powerOfTwo_zpow, div_lt_div_iff₀]
  · exact_mod_cast Iff.rfl
  · exact_mod_cast powerOfTen_pos _
  · exact_mod_cast powerOfTwo_pos _

namespace RoundingInterval

/-- A point that the interval holds is strictly inside it, or on its closed boundary. -/
theorem holds_iff (interval : RoundingInterval) (hscale : 0 < interval.scale)
    (numerator : ℕ) {denominator : ℕ} (hpos : 0 < denominator) :
    interval.holds numerator denominator = true ↔
      (interval.lower : ℚ) / interval.scale ≤ numerator / denominator ∧
        (numerator : ℚ) / denominator ≤ interval.upper / interval.scale ∧
        ((numerator : ℚ) / denominator = interval.lower / interval.scale ∨
          (numerator : ℚ) / denominator = interval.upper / interval.scale →
            interval.closed = true) := by
  have hscaleQ : (0 : ℚ) < interval.scale := by exact_mod_cast hscale
  have hposQ : (0 : ℚ) < denominator := by exact_mod_cast hpos
  rw [div_le_div_iff₀ hscaleQ hposQ, div_le_div_iff₀ hposQ hscaleQ,
    div_eq_div_iff hposQ.ne' hscaleQ.ne', div_eq_div_iff hposQ.ne' hscaleQ.ne']
  norm_cast
  unfold holds
  simp only
  split
  next hclosed =>
    simp [hclosed]
  next hopen =>
    simp [hopen]
    omega

theorem holds_of_nearestOn? {interval : RoundingInterval} {exponent : ℤ} {point : ℕ}
    (hfound : interval.nearestOn? exponent = some point) :
    interval.holds (point * powerOfTen exponent.toNat) (powerOfTen (-exponent).toNat) = true := by
  unfold nearestOn? at hfound
  simp only at hfound
  split at hfound
  next hbelow habove =>
    split_ifs at hfound
    · cases hfound
      exact hbelow
    · cases hfound
      exact habove
    · cases hfound
      rcases Nat.mod_two_eq_zero_or_one
        (interval.value * powerOfTen (-exponent).toNat /
          (powerOfTen exponent.toNat * interval.scale)) with heven | hodd
      · rw [heven]
        exact hbelow
      · rw [hodd]
        exact habove
  next hbelow habove =>
    cases hfound
    exact hbelow
  next hbelow habove =>
    cases hfound
    exact habove
  next => cases hfound

/-- A grid finer than the gap above the value has a point in the interval. -/
theorem nearestOn?_isSome {interval : RoundingInterval} {exponent : ℤ}
    (hscale : 0 < interval.scale) (hlower : interval.lower ≤ interval.value)
    (hfine : (interval.value : ℚ) / interval.scale + 10 ^ exponent <
      interval.upper / interval.scale) :
    (interval.nearestOn? exponent).isSome = true := by
  have hten := powerOfTen_pos (-exponent).toNat
  have hunit : 0 < powerOfTen exponent.toNat * interval.scale :=
    Nat.mul_pos (powerOfTen_pos _) hscale
  have hfineNat : interval.value * powerOfTen (-exponent).toNat +
      powerOfTen exponent.toNat * interval.scale <
        interval.upper * powerOfTen (-exponent).toNat := by
    have hscaleQ : (0 : ℚ) < interval.scale := by exact_mod_cast hscale
    have htenQ : (0 : ℚ) < powerOfTen (-exponent).toNat := by exact_mod_cast hten
    rw [← powerOfTen_zpow, div_add_div _ _ hscaleQ.ne' htenQ.ne',
      div_lt_div_iff₀ (mul_pos hscaleQ htenQ) hscaleQ] at hfine
    have h : (interval.value * powerOfTen (-exponent).toNat +
        powerOfTen exponent.toNat * interval.scale : ℚ) <
          interval.upper * powerOfTen (-exponent).toNat := by
      nlinarith
    exact_mod_cast h
  have habove : interval.holds
      ((interval.value * powerOfTen (-exponent).toNat /
        (powerOfTen exponent.toNat * interval.scale) + 1) * powerOfTen exponent.toNat)
      (powerOfTen (-exponent).toNat) = true := by
    have hlowerMul := Nat.mul_le_mul_right (powerOfTen (-exponent).toNat) hlower
    have hsplit := Nat.div_add_mod (interval.value * powerOfTen (-exponent).toNat)
      (powerOfTen exponent.toNat * interval.scale)
    have hmod := Nat.mod_lt (interval.value * powerOfTen (-exponent).toNat) hunit
    have hpoint : ∀ k : ℕ, (k + 1) * powerOfTen exponent.toNat * interval.scale =
        powerOfTen exponent.toNat * interval.scale * k +
          powerOfTen exponent.toNat * interval.scale := by
      intro k
      ring
    unfold holds
    simp only [hpoint]
    split <;> simp <;> omega
  unfold nearestOn?
  simp only
  rw [habove]
  split <;> simp_all
  split_ifs <;> simp

theorem nearestOn?_shortestFrom {interval : RoundingInterval} (grids : ℕ) (exponent : ℤ)
    {hit : ℕ} (hhit : hit < grids)
    (hsome : (interval.nearestOn? (exponent - hit)).isSome = true) :
    interval.nearestOn? (interval.shortestFrom grids exponent).exponent =
      some (interval.shortestFrom grids exponent).significand := by
  induction grids generalizing exponent hit with
  | zero => omega
  | succ grids ih =>
      unfold shortestFrom
      split
      next significand hfound => exact hfound
      next hnone =>
        cases hit with
        | zero => simp [hnone] at hsome
        | succ hit =>
            apply ih (exponent - 1) (Nat.lt_of_succ_lt_succ hhit)
            have hshift : exponent - 1 - (hit : ℤ) = exponent - ((hit + 1 : ℕ) : ℤ) := by
              push_cast
              ring
            rwa [hshift]

theorem of_scale_pos (significand : ℕ) (exponent : ℤ) (first : Bool) :
    0 < (of significand exponent first).scale := powerOfTwo_pos _

theorem of_factor_scale (significand : ℕ) (exponent : ℤ) (first : Bool) :
    (powerOfTwo (exponent - 2).toNat : ℚ) / (of significand exponent first).scale =
      2 ^ exponent / 4 := by
  have h := powerOfTwo_zpow (exponent - 2)
  rw [neg_sub] at h
  unfold of
  simp only
  rw [h, zpow_sub₀ (by norm_num)]
  norm_num

theorem of_value (significand : ℕ) (exponent : ℤ) (first : Bool) :
    ((of significand exponent first).value : ℚ) / (of significand exponent first).scale =
      significand * 2 ^ exponent := by
  have hvalue : ((of significand exponent first).value : ℚ) =
      4 * significand * powerOfTwo (exponent - 2).toNat := by
    unfold of
    push_cast
    rfl
  rw [hvalue, mul_div_assoc, of_factor_scale]
  ring

theorem of_upper (significand : ℕ) (exponent : ℤ) (first : Bool) :
    ((of significand exponent first).upper : ℚ) / (of significand exponent first).scale =
      Format.upperEnd significand exponent := by
  have hupper : ((of significand exponent first).upper : ℚ) =
      (4 * significand + 2) * powerOfTwo (exponent - 2).toNat := by
    unfold of
    push_cast
    rfl
  rw [hupper, mul_div_assoc, of_factor_scale]
  unfold Format.upperEnd
  ring

theorem of_lower {significand : ℕ} (hpos : 0 < significand) (exponent : ℤ) (first : Bool) :
    ((of significand exponent first).lower : ℚ) / (of significand exponent first).scale =
      (significand - if first = true then 1 / 4 else 1 / 2) * 2 ^ exponent := by
  have hlower : ((of significand exponent first).lower : ℚ) =
      (4 * significand - if first = true then 1 else 2) * powerOfTwo (exponent - 2).toNat := by
    unfold of
    simp only
    rw [Nat.cast_mul, Nat.cast_sub (by split_ifs <;> omega)]
    push_cast
    rfl
  rw [hlower, mul_div_assoc, of_factor_scale]
  split_ifs <;> ring

theorem of_lower_le_value (significand : ℕ) (exponent : ℤ) (first : Bool) :
    (of significand exponent first).lower ≤ (of significand exponent first).value :=
  Nat.mul_le_mul_right _ (Nat.sub_le _ _)

/-- The grids start close above the value. -/
theorem of_coarseExponent_le {significand : ℕ} {bits : ℕ} (hpos : 0 < significand)
    (hlt : significand < 2 ^ bits) (exponent : ℤ) (first : Bool) :
    (of significand exponent first).coarseExponent ≤ (bits + exponent) * 30103 / 100000 + 1 := by
  have hscale : (of significand exponent first).scale.log2 = (2 - exponent).toNat :=
    Nat.log2_two_pow
  have hvalue : (of significand exponent first).value.log2 < bits + 2 + (exponent - 2).toNat := by
    have hproduct : (of significand exponent first).value =
        4 * significand * powerOfTwo (exponent - 2).toNat := rfl
    rw [hproduct, Nat.log2_lt (Nat.mul_pos (by omega) (powerOfTwo_pos _)).ne', Nat.pow_add,
      Nat.pow_add]
    apply Nat.mul_lt_mul_of_pos_right _ (powerOfTwo_pos _)
    omega
  unfold coarseExponent
  rw [hscale]
  omega

end RoundingInterval

namespace Format

/-- Twenty-three grids below the first one the step is less than half a unit, at every exponent
of single precision. -/
theorem finestStep_lt {exponent : ℤ} (hlow : -149 ≤ exponent) (hhigh : exponent ≤ 104) :
    (10 : ℚ) ^ ((24 + exponent) * 30103 / 100000 - 22) < 2 ^ exponent / 2 := by
  have hfinite : ∀ i : ℕ, i < 254 →
      powerOfTen (((24 + ((i : ℤ) - 149)) * 30103 / 100000 - 22)).toNat *
          powerOfTwo (-((i : ℤ) - 149 - 1)).toNat <
        powerOfTwo ((i : ℤ) - 149 - 1).toNat *
          powerOfTen (-(((24 + ((i : ℤ) - 149)) * 30103 / 100000 - 22))).toNat := by
    decide +kernel
  obtain ⟨i, hi⟩ := Int.eq_ofNat_of_zero_le (show 0 ≤ exponent + 149 by omega)
  have hexponent : exponent = (i : ℤ) - 149 := by omega
  have hhalf : (2 : ℚ) ^ exponent / 2 = 2 ^ (exponent - 1) := by
    rw [zpow_sub₀ (by norm_num), zpow_one]
  rw [hhalf, ten_zpow_lt_two_zpow_iff, hexponent]
  exact hfinite i (by omega)

/-- The interval around a number in which its shortest decimal is searched. -/
def interval (format : Format) (significand : ℕ) (exponent : ℤ) : RoundingInterval :=
  .of significand exponent
    (significand == format.leadingBit && decide (format.leastExponent < exponent))

theorem interval_scale_pos (format : Format) (significand : ℕ) (exponent : ℤ) :
    0 < (format.interval significand exponent).scale :=
  RoundingInterval.of_scale_pos _ _ _

section Interval

variable {format : Format} {significand : ℕ} {exponent : ℤ}

theorem shortest_of_pos (hpos : 0 < significand) :
    format.shortest significand exponent = (format.interval significand exponent).shortest := by
  unfold shortest
  rw [if_neg hpos.ne']
  rfl

theorem holds_interval_iff (hpos : 0 < significand) (numerator : ℕ) {denominator : ℕ}
    (hdenominator : 0 < denominator) :
    (format.interval significand exponent).holds numerator denominator = true ↔
      format.RoundsTo significand exponent (numerator / denominator) := by
  have hlower : ((format.interval significand exponent).lower : ℚ) /
      (format.interval significand exponent).scale = format.lowerEnd significand exponent := by
    rw [interval, RoundingInterval.of_lower hpos, lowerEnd]
    congr 2
    simp
  have hupper : ((format.interval significand exponent).upper : ℚ) /
      (format.interval significand exponent).scale = upperEnd significand exponent :=
    RoundingInterval.of_upper _ _ _
  have hclosed : (format.interval significand exponent).closed = true ↔ significand % 2 = 0 :=
    beq_iff_eq
  rw [RoundingInterval.holds_iff _ (interval_scale_pos _ _ _) _ hdenominator, hlower, hupper,
    hclosed]
  constructor
  · rintro ⟨hlow, hhigh, hends⟩
    exact ⟨hlow, hhigh, fun heq => hends (.inl heq), fun heq => hends (.inr heq)⟩
  · rintro ⟨hlow, hhigh, hlowEven, hhighEven⟩
    exact ⟨hlow, hhigh, fun hends => hends.elim hlowEven hhighEven⟩

/-- A point of a decimal grid as the quotient that the search tests. -/
theorem grid_point (point : ℕ) (power : ℤ) :
    ((point * powerOfTen power.toNat : ℕ) : ℚ) / powerOfTen (-power).toNat =
      point * 10 ^ power := by
  rw [Nat.cast_mul, mul_div_assoc, powerOfTen_zpow]

theorem holds_grid_iff (hpos : 0 < significand) (point : ℕ) (power : ℤ) :
    (format.interval significand exponent).holds (point * powerOfTen power.toNat)
        (powerOfTen (-power).toNat) = true ↔
      format.RoundsTo significand exponent (point * 10 ^ power) := by
  rw [holds_interval_iff hpos _ (powerOfTen_pos _), grid_point]

end Interval

theorem shortest_roundsTo {significand : ℕ} {exponent : ℤ}
    (hcanonical : binary32.Canonical significand exponent) (hhigh : exponent ≤ 104) :
    binary32.RoundsTo significand exponent
      ((binary32.shortest significand exponent).significand *
        10 ^ (binary32.shortest significand exponent).exponent) := by
  rcases Nat.eq_zero_or_pos significand with rfl | hpos
  · have hzero := roundsTo_self binary32 0 exponent
    simpa [shortest] using hzero
  rw [shortest_of_pos hpos, ← holds_grid_iff hpos]
  apply RoundingInterval.holds_of_nearestOn?
  apply RoundingInterval.nearestOn?_shortestFrom 24 _ (show 23 < 24 by norm_num)
  apply RoundingInterval.nearestOn?_isSome (interval_scale_pos _ _ _)
    (RoundingInterval.of_lower_le_value _ _ _)
  rw [interval, RoundingInterval.of_value, RoundingInterval.of_upper]
  -- The last of the grids is finer than half a unit.
  have hcoarse := RoundingInterval.of_coarseExponent_le hpos
    (show significand < 2 ^ 24 from hcanonical.significand_lt) exponent
    (significand == binary32.leadingBit && decide (binary32.leastExponent < exponent))
  have hstep : (10 : ℚ) ^ ((binary32.interval significand exponent).coarseExponent - (23 : ℕ)) <
      2 ^ exponent / 2 := by
    refine lt_of_le_of_lt ?_ (finestStep_lt hcanonical.least_le hhigh)
    apply zpow_le_zpow_right₀ (by norm_num)
    push_cast at hcoarse ⊢
    rw [interval]
    omega
  rw [upperEnd, add_mul]
  rw [interval] at hstep
  linarith

end Format

end NoiseShader.Number
