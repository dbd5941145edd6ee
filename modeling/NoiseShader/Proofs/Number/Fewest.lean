import NoiseShader.Proofs.Number.Shortest
import Mathlib.Algebra.Order.Floor.Semifield
import Mathlib.Tactic

/-!
# Fewest digits

The shortest decimal of a number has the greatest power of ten of all decimals that
round to the number: on a coarser grid the two points around the number do not
round to it, so none does, and the search starts where a single step is already
beyond the interval.

It follows that no decimal with fewer digits rounds to the number.  If there were
one, a power of ten with a greater exponent would stand between the two.
-/

namespace NoiseShader.Number

namespace RoundingInterval

variable {interval : RoundingInterval}

/-- The last point of a grid that is not above the value. -/
def pointBelow (interval : RoundingInterval) (exponent : ℤ) : ℕ :=
  interval.value * powerOfTen (-exponent).toNat / (powerOfTen exponent.toNat * interval.scale)

theorem pointBelow_eq_floor (interval : RoundingInterval) (exponent : ℤ) :
    interval.pointBelow exponent = ⌊(interval.value : ℚ) / interval.scale / 10 ^ exponent⌋₊ := by
  rw [pointBelow, ← Nat.floor_div_eq_div (K := ℚ), ← powerOfTen_zpow]
  congr 1
  push_cast
  rw [div_div_div_eq, mul_comm (interval.scale : ℚ)]

theorem holds_of_nearestOn?_none {exponent : ℤ} (hnone : interval.nearestOn? exponent = none) :
    interval.holds (interval.pointBelow exponent * powerOfTen exponent.toNat)
        (powerOfTen (-exponent).toNat) = false ∧
      interval.holds ((interval.pointBelow exponent + 1) * powerOfTen exponent.toNat)
        (powerOfTen (-exponent).toNat) = false := by
  unfold nearestOn? at hnone
  simp only at hnone
  split at hnone
  next => split_ifs at hnone
  next => cases hnone
  next => cases hnone
  next hbelow habove => exact ⟨hbelow, habove⟩

/-- The search passes over no grid with a hit. -/
theorem nearestOn?_of_shortestFrom_lt {grids : ℕ} {exponent power : ℤ}
    (hlt : (interval.shortestFrom grids exponent).exponent < power) (hle : power ≤ exponent) :
    interval.nearestOn? power = none := by
  induction grids generalizing exponent with
  | zero =>
      simp only [shortestFrom] at hlt
      omega
  | succ grids ih =>
      rw [shortestFrom] at hlt
      split at hlt
      next significand hfound =>
        simp only at hlt
        omega
      next hnone =>
        rcases eq_or_lt_of_le hle with rfl | hless
        · exact hnone
        · exact ih hlt (by omega)

theorem le_of_coarseExponent {significand : ℕ} (hpos : 0 < significand) (exponent : ℤ)
    (first : Bool) :
    (significand.log2 + exponent + 1 : ℤ) * 30103 / 100000 + 1 ≤
      (of significand exponent first).coarseExponent := by
  have hscale : (of significand exponent first).scale.log2 = (2 - exponent).toNat :=
    Nat.log2_two_pow
  have hvalue : significand.log2 + 2 + (exponent - 2).toNat ≤
      (of significand exponent first).value.log2 := by
    have hproduct : (of significand exponent first).value =
        4 * significand * powerOfTwo (exponent - 2).toNat := rfl
    rw [hproduct, Nat.le_log2 (Nat.mul_pos (by omega) (powerOfTwo_pos _)).ne', Nat.pow_add,
      Nat.pow_add, Nat.mul_comm 4]
    exact Nat.mul_le_mul_right _ (Nat.mul_le_mul_right _ (Nat.log2_self_le hpos.ne'))
  unfold coarseExponent
  rw [hscale]
  omega

end RoundingInterval

namespace Format

section Interval

variable {format : Format} {significand : ℕ} {exponent : ℤ}

/-- A grid on which the search finds nothing has no point that rounds to the number. -/
theorem not_roundsTo_of_nearestOn? (hpos : 0 < significand) {power : ℤ}
    (hnone : (format.interval significand exponent).nearestOn? power = none) (point : ℕ) :
    ¬ format.RoundsTo significand exponent (point * 10 ^ power) := by
  obtain ⟨hbelow, habove⟩ := RoundingInterval.holds_of_nearestOn?_none hnone
  rw [← Bool.not_eq_true, holds_grid_iff hpos] at hbelow habove
  have hfloor := (format.interval significand exponent).pointBelow_eq_floor power
  generalize (format.interval significand exponent).pointBelow power = below at *
  rw [interval, RoundingInterval.of_value] at hfloor
  have hstep : (0 : ℚ) < 10 ^ power := zpow_pos (by norm_num) power
  have hself := roundsTo_self format significand exponent
  have haround : (below * 10 ^ power : ℚ) ≤ significand * 2 ^ exponent ∧
      (significand * 2 ^ exponent : ℚ) ≤ (below + 1 : ℕ) * 10 ^ power := by
    rw [hfloor, ← le_div_iff₀ hstep, ← div_le_iff₀ hstep, Nat.cast_add_one]
    exact ⟨Nat.floor_le (by positivity), (Nat.lt_floor_add_one _).le⟩
  intro hpoint
  rcases Nat.lt_or_ge below point with hless | hle
  · refine habove (hself.convex hpoint haround.2 ?_)
    exact mul_le_mul_of_nonneg_right (by exact_mod_cast hless) hstep.le
  · refine hbelow (hpoint.convex hself ?_ haround.1)
    exact mul_le_mul_of_nonneg_right (by exact_mod_cast hle) hstep.le

/-- The estimate of a decimal exponent from a binary one, at the exponents of single precision. -/
theorem two_zpow_le_ten_zpow {power : ℤ} (hlow : -150 ≤ power) (hhigh : power < 130) :
    (2 : ℚ) ^ power ≤ 10 ^ (power * 30103 / 100000 + 2) := by
  have hfinite : ∀ i : ℕ, i < 280 →
      ¬ powerOfTen (((i : ℤ) - 150) * 30103 / 100000 + 2).toNat *
          powerOfTwo (-((i : ℤ) - 150)).toNat <
        powerOfTwo ((i : ℤ) - 150).toNat *
          powerOfTen (-(((i : ℤ) - 150) * 30103 / 100000 + 2)).toNat := by
    decide +kernel
  obtain ⟨i, hi⟩ := Int.eq_ofNat_of_zero_le (show 0 ≤ power + 150 by omega)
  have hpower : power = (i : ℤ) - 150 := by omega
  rw [← not_lt, ten_zpow_lt_two_zpow_iff, hpower]
  exact hfinite i (by omega)

/-- The search starts where one step is beyond the interval. -/
theorem upperEnd_lt_of_coarseExponent_lt (hcanonical : binary32.Canonical significand exponent)
    (hhigh : exponent ≤ 104) (hpos : 0 < significand) {power : ℤ}
    (hcoarse : (binary32.interval significand exponent).coarseExponent < power) :
    upperEnd significand exponent < 10 ^ power := by
  have hleast : -149 ≤ exponent := hcanonical.least_le
  have hlog : significand.log2 < 24 := (Nat.log2_lt hpos.ne').mpr hcanonical.significand_lt
  have hestimate := RoundingInterval.le_of_coarseExponent hpos exponent
    (significand == binary32.leadingBit && decide (binary32.leastExponent < exponent))
  rw [interval] at hcoarse
  calc upperEnd significand exponent
      < (significand + 1) * 2 ^ exponent := by
        unfold upperEnd
        exact mul_lt_mul_of_pos_right (by linarith) (two_zpow_pos exponent)
    _ ≤ 2 ^ (significand.log2 + 1) * 2 ^ exponent := by
        apply mul_le_mul_of_nonneg_right _ (two_zpow_pos exponent).le
        exact_mod_cast Nat.lt_log2_self
    _ = 2 ^ (significand.log2 + exponent + 1 : ℤ) := by
        rw [← zpow_natCast, ← zpow_add₀ (by norm_num)]
        congr 1
        push_cast
        ring
    _ ≤ 10 ^ ((significand.log2 + exponent + 1 : ℤ) * 30103 / 100000 + 2) :=
        two_zpow_le_ten_zpow (by omega) (by omega)
    _ ≤ 10 ^ power := zpow_le_zpow_right₀ (by norm_num) (by omega)

theorem le_shortest_exponent (hcanonical : binary32.Canonical significand exponent)
    (hhigh : exponent ≤ 104) (hpos : 0 < significand) {point : ℕ} {power : ℤ}
    (hpoint : binary32.RoundsTo significand exponent (point * 10 ^ power)) :
    power ≤ (binary32.shortest significand exponent).exponent := by
  by_contra hlt
  rw [not_le, shortest_of_pos hpos] at hlt
  rcases le_or_gt power (binary32.interval significand exponent).coarseExponent with hle | hcoarse
  · have hnone := RoundingInterval.nearestOn?_of_shortestFrom_lt hlt hle
    exact not_roundsTo_of_nearestOn? hpos hnone point hpoint
  · have hupper := upperEnd_lt_of_coarseExponent_lt hcanonical hhigh hpos hcoarse
    have hpointPos : (0 : ℚ) < point * 10 ^ power := (lowerEnd_pos hpos).trans_le hpoint.lower
    have hone : (1 : ℚ) ≤ point := by
      rcases Nat.eq_zero_or_pos point with rfl | hone
      · simp at hpointPos
      · exact_mod_cast hone
    have hge : (10 : ℚ) ^ power ≤ point * 10 ^ power :=
      le_mul_of_one_le_left (zpow_pos (by norm_num) power).le hone
    have hle := hpoint.upper
    linarith

/-- No decimal with fewer digits rounds to the number. -/
theorem shortest_significand_lt (hcanonical : binary32.Canonical significand exponent)
    (hhigh : exponent ≤ 104) (hpos : 0 < significand) {digits point : ℕ} {power : ℤ}
    (hfew : point < 10 ^ digits)
    (hpoint : binary32.RoundsTo significand exponent (point * 10 ^ power)) :
    (binary32.shortest significand exponent).significand < 10 ^ digits := by
  have hshortest := shortest_roundsTo hcanonical hhigh
  have hgreatest : ∀ (other : ℕ) (power : ℤ),
      binary32.RoundsTo significand exponent (other * 10 ^ power) →
        power ≤ (binary32.shortest significand exponent).exponent :=
    fun _ _ => le_shortest_exponent hcanonical hhigh hpos
  generalize binary32.shortest significand exponent = shortest at *
  have hpower := hgreatest point power hpoint
  have hpointPos : (0 : ℚ) < point * 10 ^ power := (lowerEnd_pos hpos).trans_le hpoint.lower
  have hdigits : 0 < digits := by
    rcases Nat.eq_zero_or_pos digits with rfl | h
    · have hzero : point = 0 := by simpa using hfew
      simp [hzero] at hpointPos
    · exact h
  by_contra hmany
  rw [not_lt] at hmany
  -- A power of ten between the two decimals has too great an exponent.
  have hbetween : binary32.RoundsTo significand exponent
      ((1 : ℕ) * 10 ^ (digits + shortest.exponent : ℤ)) := by
    apply hpoint.convex hshortest
    · rw [zpow_add₀ (by norm_num), zpow_natCast, Nat.cast_one, one_mul]
      apply mul_le_mul
      · exact_mod_cast hfew.le
      · exact zpow_le_zpow_right₀ (by norm_num) hpower
      · exact (zpow_pos (by norm_num) power).le
      · positivity
    · rw [zpow_add₀ (by norm_num), zpow_natCast, Nat.cast_one, one_mul]
      apply mul_le_mul_of_nonneg_right _ (zpow_pos (by norm_num) _).le
      exact_mod_cast hmany
  have hgreater := hgreatest 1 _ hbetween
  omega

end Interval

end Format

end NoiseShader.Number
