import NoiseShader.Proofs.Number.Nearest
import NoiseShader.Proofs.Number.Word
import Mathlib.Tactic

/-!
# The order of single precision numbers

Every number has a value among the rational numbers extended by two infinities;
only what is not a number has none, and zeros of either sign have the same.
Comparing numbers is comparing their values, and `minimum` and `maximum` have the
lesser and the greater value.
-/

namespace NoiseShader.Number

open Float.Model (UnpackedFloat)
open Float.Model.UnpackedFloat (Sign)

/-- The rational numbers with an infinity at either end. -/
abbrev Extended := WithBot (WithTop ℚ)

/-- The value of a number, of which what is not a number has none. -/
def Parts.value? : Parts → Option Extended
  | .notANumber => none
  | .infinite true => some ⊥
  | .infinite false => some ⊤
  | .finite true significand exponent => some ((-(significand * 2 ^ exponent) : ℚ) : WithTop ℚ)
  | .finite false significand exponent => some ((significand * 2 ^ exponent : ℚ) : WithTop ℚ)

theorem Format.Canonical.lt_of_exponent_lt {format : Format} {significand other : ℕ}
    {exponent power : ℤ} (hcanonical : format.Canonical significand exponent)
    (hother : format.Canonical other power) (hlt : exponent < power) :
    (significand * 2 ^ exponent : ℚ) < other * 2 ^ power := by
  have hfull : (format.leadingBit : ℚ) ≤ other := by
    exact_mod_cast hother.leadingBit_le (lt_of_le_of_lt hcanonical.least_le hlt)
  calc (significand * 2 ^ exponent : ℚ) ≤ (format.leadingBit - 1 / 2) * 2 ^ power :=
        hcanonical.le_of_power_lt hlt
    _ < other * 2 ^ power := mul_lt_mul_of_pos_right (by linarith) (two_zpow_pos power)

/-- Numbers of a format are compared by their exponents first. -/
theorem Format.Canonical.cmp_eq {format : Format} {significand other : ℕ} {exponent power : ℤ}
    (hcanonical : format.Canonical significand exponent) (hother : format.Canonical other power) :
    cmp (significand * 2 ^ exponent : ℚ) (other * 2 ^ power) =
      (compare exponent power).then (compare significand other) := by
  rcases lt_trichotomy exponent power with hlt | rfl | hgt
  · rw [compare_lt_iff_lt.mpr hlt,
      (cmp_eq_lt_iff _ _).mpr (hcanonical.lt_of_exponent_lt hother hlt)]
    rfl
  · have hmono : StrictMono fun n : ℕ => (n * 2 ^ exponent : ℚ) := by
      intro m n hmn
      exact mul_lt_mul_of_pos_right (by exact_mod_cast hmn) (two_zpow_pos exponent)
    rw [compare_eq_iff_eq.mpr rfl, hmono.cmp_map_eq, cmp_eq_compare]
    rfl
  · rw [compare_gt_iff_gt.mpr hgt,
      (cmp_eq_gt_iff _ _).mpr (hother.lt_of_exponent_lt hcanonical hgt)]
    rfl

/-! ## Comparing unpacked numbers -/

/-- An unpacked number of single precision that is no infinity, with its value. -/
inductive HasRational : UnpackedFloat → ℚ → Prop
  | zero (sign : Sign) : HasRational (.zero sign) 0
  | positive {significand : ℕ} {exponent : ℤ} (hpos : 0 < significand)
      (hcanonical : Format.binary32.Canonical significand exponent) :
      HasRational (.finite .positive significand exponent hpos) (significand * 2 ^ exponent)
  | negative {significand : ℕ} {exponent : ℤ} (hpos : 0 < significand)
      (hcanonical : Format.binary32.Canonical significand exponent) :
      HasRational (.finite .negative significand exponent hpos) (-(significand * 2 ^ exponent))

theorem magnitude_pos {significand : ℕ} (hpos : 0 < significand) (exponent : ℤ) :
    (0 : ℚ) < significand * 2 ^ exponent :=
  mul_pos (by exact_mod_cast hpos) (Format.two_zpow_pos exponent)

theorem HasRational.compare_eq {u v : UnpackedFloat} {p q : ℚ} (hu : HasRational u p)
    (hv : HasRational v q) : u.compare v = some (cmp p q) := by
  cases hu with
  | zero sign =>
      cases hv with
      | zero =>
          rw [cmp_self_eq_eq]
          rfl
      | @positive _ exponent hpos =>
          rw [(cmp_eq_lt_iff _ _).mpr (magnitude_pos hpos exponent)]
          rfl
      | @negative _ exponent hpos =>
          rw [(cmp_eq_gt_iff _ _).mpr (neg_lt_zero.mpr (magnitude_pos hpos exponent))]
          rfl
  | @positive _ exponent hpos hcanonical =>
      have habove := magnitude_pos hpos exponent
      cases hv with
      | zero sign =>
          rw [(cmp_eq_gt_iff _ _).mpr habove]
          rfl
      | positive hpos' hcanonical' =>
          rw [hcanonical.cmp_eq hcanonical']
          rfl
      | @negative _ exponent' hpos' =>
          have hbelow := neg_lt_zero.mpr (magnitude_pos hpos' exponent')
          rw [(cmp_eq_gt_iff _ _).mpr (hbelow.trans habove)]
          rfl
  | @negative _ exponent hpos hcanonical =>
      have hbelow := neg_lt_zero.mpr (magnitude_pos hpos exponent)
      cases hv with
      | zero sign =>
          rw [(cmp_eq_lt_iff _ _).mpr hbelow]
          rfl
      | @positive _ exponent' hpos' =>
          rw [(cmp_eq_lt_iff _ _).mpr (hbelow.trans (magnitude_pos hpos' exponent'))]
          rfl
      | negative hpos' hcanonical' =>
          have hanti : StrictAnti fun number : ℚ => -number := fun _ _ => neg_lt_neg
          rw [hanti.cmp_map_eq, ← cmp_swap, hcanonical.cmp_eq hcanonical']
          rfl

/-- An unpacked number of single precision with its value. -/
inductive HasValue : UnpackedFloat → Extended → Prop
  | least : HasValue (.infinity .negative) ⊥
  | greatest : HasValue (.infinity .positive) ⊤
  | rational {u : UnpackedFloat} {q : ℚ} (hu : HasRational u q) : HasValue u (q : WithTop ℚ)

theorem HasValue.compare_eq {u v : UnpackedFloat} {a b : Extended} (hu : HasValue u a)
    (hv : HasValue v b) : u.compare v = some (cmp a b) := by
  have hbot : ∀ q : ℚ, (⊥ : Extended) < (q : WithTop ℚ) := fun q => WithBot.bot_lt_coe _
  have htop : ∀ q : ℚ, ((q : WithTop ℚ) : Extended) < ⊤ := fun q =>
    WithBot.coe_lt_coe.mpr (WithTop.coe_lt_top q)
  cases hu with
  | least =>
      cases hv with
      | least =>
          rw [cmp_self_eq_eq]
          rfl
      | greatest =>
          rw [(cmp_eq_lt_iff _ _).mpr bot_lt_top]
          rfl
      | rational hv =>
          rw [(cmp_eq_lt_iff _ _).mpr (hbot _)]
          cases hv <;> rfl
  | greatest =>
      cases hv with
      | least =>
          rw [(cmp_eq_gt_iff _ _).mpr bot_lt_top]
          rfl
      | greatest =>
          rw [cmp_self_eq_eq]
          rfl
      | rational hv =>
          rw [(cmp_eq_gt_iff _ _).mpr (htop _)]
          cases hv <;> rfl
  | @rational _ p hu =>
      cases hv with
      | least =>
          rw [(cmp_eq_gt_iff _ _).mpr (hbot _)]
          cases hu <;> rfl
      | greatest =>
          rw [(cmp_eq_lt_iff _ _).mpr (htop _)]
          cases hu <;> rfl
      | @rational _ q hv =>
          rw [hu.compare_eq hv]
          exact congrArg some
            ((WithBot.coe_strictMono.comp WithTop.coe_strictMono).cmp_map_eq p q).symm

/-! ## Values of words -/

namespace Binary32

def value? (x : Float32) : Option Extended := (parts x).value?

theorem parts_eq (x : Float32) :
    parts x = .ofUnpacked Format.binary32 x.toModel.unpack := @decode_toNat model _

theorem hasValue {x : Float32} {a : Extended} (hx : value? x = some a) :
    HasValue x.toModel.unpack a := by
  have hcanonical := @canonical_of_parts x
  simp only [value?, parts_eq] at hx hcanonical
  generalize x.toModel.unpack = u at *
  cases u with
  | notANumber => cases hx
  | infinity sign =>
      cases sign <;> cases hx
      · exact .least
      · exact .greatest
  | zero sign =>
      have hzero : a = ((0 : ℚ) : WithTop ℚ) := by
        cases sign <;> simpa [Parts.value?, isMinus, eq_comm] using hx
      rw [hzero]
      exact .rational (.zero sign)
  | finite sign significand exponent hpos =>
      have hparts := (hcanonical rfl).1
      cases sign <;> cases hx
      · exact .rational (.negative hpos hparts)
      · exact .rational (.positive hpos hparts)

theorem value?_eq_none_iff (x : Float32) : value? x = none ↔ isNotANumber x = true := by
  unfold value? isNotANumber Float32.isNaN Float32.Model.isNaN
  rw [parts_eq]
  cases x.toModel.unpack with
  | notANumber => exact ⟨fun _ => rfl, fun _ => rfl⟩
  | infinity sign | zero sign | finite sign =>
      cases sign <;> exact ⟨by rintro ⟨⟩, by rintro ⟨⟩⟩

theorem isInfinite_iff (x : Float32) (negative : Bool) :
    isInfinite x negative = true ↔ parts x = .infinite negative := by
  cases hparts : parts x with
  | notANumber =>
      rw [eq_notANumber_of_parts hparts]
      revert negative
      decide
  | infinite sign =>
      rw [eq_infinity_of_parts hparts]
      clear hparts
      revert negative sign
      decide
  | finite sign significand exponent =>
      have hfinite : x.isInf = false := by
        rw [parts_eq] at hparts
        unfold Float32.isInf Float32.Model.isInf
        cases hunpack : x.toModel.unpack with
        | infinity => simp [hunpack] at hparts
        | notANumber | zero | finite => rfl
      simp [isInfinite, hfinite]

section Values

variable {x y : Float32} {a b : Extended} (hx : value? x = some a) (hy : value? y = some b)

include hx

theorem isNotANumber_of_value : isNotANumber x = false := by
  rw [← Bool.not_eq_true, ← value?_eq_none_iff, hx]
  simp

theorem isInfinite_iff_value :
    (isInfinite x true = true ↔ a = ⊥) ∧ (isInfinite x false = true ↔ a = ⊤) := by
  rw [isInfinite_iff, isInfinite_iff]
  unfold value? at hx
  cases hparts : parts x with
  | notANumber => simp [hparts, Parts.value?] at hx
  | infinite sign => cases sign <;> simp [hparts, Parts.value?] at hx <;> simp [← hx]
  | finite sign significand exponent =>
      cases sign <;> simp only [hparts, Parts.value?, Option.some.injEq] at hx <;>
        simp only [← hx, reduceCtorEq, false_iff] <;>
        exact ⟨WithBot.coe_ne_bot, fun h => WithTop.coe_ne_top (WithBot.coe_injective h)⟩

include hy

theorem lt_iff_value : x < y ↔ a < b := by
  have hcompare := (hasValue hx).compare_eq (hasValue hy)
  rw [← cmp_eq_lt_iff]
  change decide ((UnpackedFloat.compare _ _ == some .lt) = true) = true ↔ _
  rw [decide_eq_true_iff, hcompare, beq_iff_eq, Option.some.injEq]

theorem beq_iff_value : (x == y) = true ↔ a = b := by
  have hcompare := (hasValue hx).compare_eq (hasValue hy)
  rw [← cmp_eq_eq_iff a b]
  change (UnpackedFloat.compare _ _ == some .eq) = true ↔ _
  rw [hcompare, beq_iff_eq, Option.some.injEq]

theorem eq_of_isZero (hx' : isZero x = true) (hy' : isZero y = true) : a = b := by
  obtain ⟨zero, hzero⟩ : ∃ zero, value? 0 = some zero := ⟨_, rfl⟩
  rw [(beq_iff_value hx hzero).mp hx', (beq_iff_value hy hzero).mp hy']

theorem value?_minimum : value? (minimum x y) = some (min a b) := by
  have hleft := (isInfinite_iff_value hx).1
  have hright := (isInfinite_iff_value hy).1
  unfold minimum
  rw [isNotANumber_of_value hx, isNotANumber_of_value hy]
  split_ifs with hleft' hright' hnan hzeros hsign hlt
  · rw [hx, hleft.mp hleft', bot_inf_eq]
  · rw [hy, hright.mp hright', inf_bot_eq]
  · simp at hnan
  · rw [hx, eq_of_isZero hx hy hzeros.1 hzeros.2, min_self]
  · rw [hy, eq_of_isZero hx hy hzeros.1 hzeros.2, min_self]
  · rw [hx, min_eq_left ((lt_iff_value hx hy).mp hlt).le]
  · rw [hy, min_eq_right (not_lt.mp (mt (lt_iff_value hx hy).mpr hlt))]

theorem value?_maximum : value? (maximum x y) = some (max a b) := by
  have hleft := (isInfinite_iff_value hx).2
  have hright := (isInfinite_iff_value hy).2
  unfold maximum
  rw [isNotANumber_of_value hx, isNotANumber_of_value hy]
  split_ifs with hleft' hright' hnan hzeros hsign hlt
  · rw [hx, hleft.mp hleft', top_sup_eq]
  · rw [hy, hright.mp hright', sup_top_eq]
  · simp at hnan
  · rw [hy, eq_of_isZero hx hy hzeros.1 hzeros.2, max_self]
  · rw [hx, eq_of_isZero hx hy hzeros.1 hzeros.2, max_self]
  · rw [hx, max_eq_left ((lt_iff_value hy hx).mp hlt).le]
  · rw [hy, max_eq_right (not_lt.mp (mt (lt_iff_value hy hx).mpr hlt))]

end Values

end Binary32

end NoiseShader.Number
