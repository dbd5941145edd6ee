import NoiseShader.Proofs.Number.Order
import Mathlib.Tactic

/-!
# Two ways to the lesser and the greater number

`lesser` and `greater` compare their arguments once and keep the first one if the
comparison fails; `minimum` and `maximum` look at infinities, at what is not a
number and at the signs of zeros before they compare.  Both pairs follow one
scheme, with the order for the lesser and its reverse for the greater number, and
they part exactly where a comparison cannot tell the arguments apart.
-/

namespace NoiseShader.Number.Binary32

open Float.Model (UnpackedFloat)

/-! ## Numbers with the same value -/

theorem exists_value {x : Float32} (hx : isNotANumber x = false) : ∃ a, value? x = some a := by
  rw [← Option.ne_none_iff_exists', ne_eq, value?_eq_none_iff, hx]
  exact Bool.false_ne_true

theorem eq_notANumber {x : Float32} (hx : isNotANumber x = true) : x = notANumber := by
  apply eq_notANumber_of_parts
  have hnone := (value?_eq_none_iff x).mpr hx
  unfold value? at hnone
  cases hparts : parts x with
  | notANumber => rfl
  | infinite negative => cases negative <;> simp [hparts, Parts.value?] at hnone
  | finite negative significand exponent =>
      cases negative <;> simp [hparts, Parts.value?] at hnone

theorem value?_of_parts {x : Float32} {negative : Bool} {significand : ℕ} {exponent : ℤ}
    (hparts : parts x = .finite negative significand exponent) :
    value? x = some ((((if negative then -1 else 1) * (significand * 2 ^ exponent) : ℚ) :
      WithTop ℚ) : Extended) := by
  rw [value?, hparts]
  cases negative <;> simp [Parts.value?]

theorem isZero_of_parts {x : Float32} {negative : Bool} {significand : ℕ} {exponent : ℤ}
    (hparts : parts x = .finite negative significand exponent) :
    isZero x = true ↔ significand = 0 := by
  have hzero : parts 0 = .finite false 0 (-149) := by decide
  rw [isZero, beq_iff_value (value?_of_parts hparts) (value?_of_parts hzero), WithBot.coe_inj,
    WithTop.coe_inj]
  cases negative <;> simp [(Format.two_zpow_pos exponent).ne']

theorem exists_parts_of_isZero {x : Float32} (hx : isZero x = true) :
    ∃ negative, parts x = .finite negative 0 (-149) := by
  cases hparts : parts x with
  | notANumber =>
      rw [eq_notANumber_of_parts hparts] at hx
      revert hx
      decide
  | infinite negative =>
      rw [eq_infinity_of_parts hparts] at hx
      clear hparts
      revert hx negative
      decide
  | finite negative significand exponent =>
      obtain rfl := (isZero_of_parts hparts).mp hx
      have hfull : 2 ^ 23 ≤ 0 ∨ exponent = -149 := (canonical_of_parts hparts).1.full
      exact ⟨negative, by rw [hfull.resolve_left (by norm_num)]⟩

/-- Zeros of one sign are one number. -/
theorem eq_of_zeros {x y : Float32} (hx : isZero x = true) (hy : isZero y = true)
    (hsign : isNegative x = isNegative y) : x = y := by
  obtain ⟨negative, hx⟩ := exists_parts_of_isZero hx
  obtain ⟨negative', hy⟩ := exists_parts_of_isZero hy
  rw [isNegative_of_parts hx, isNegative_of_parts hy] at hsign
  rw [← ofWord_encode_of_parts hx, ← ofWord_encode_of_parts hy, hsign]

theorem eq_of_isInfinite {x y : Float32} {negative : Bool} (hx : isInfinite x negative = true)
    (hy : isInfinite y negative = true) : x = y := by
  rw [isInfinite_iff] at hx hy
  rw [eq_infinity_of_parts hx, eq_infinity_of_parts hy]

theorem exists_parts_finite {x : Float32} (hnumber : isNotANumber x = false)
    (hlow : isInfinite x true = false) (hhigh : isInfinite x false = false) :
    ∃ negative significand exponent, parts x = .finite negative significand exponent := by
  cases hparts : parts x with
  | notANumber =>
      have hnone : value? x = none := by rw [value?, hparts, Parts.value?]
      rw [(value?_eq_none_iff x).mp hnone] at hnumber
      cases hnumber
  | infinite negative =>
      have hinfinite := (isInfinite_iff x negative).mpr hparts
      cases negative <;> simp_all
  | finite negative significand exponent => exact ⟨_, _, _, rfl⟩

theorem eq_of_magnitude {x y : Float32} {negative : Bool} {significand significand' : ℕ}
    {exponent exponent' : ℤ} (hx : parts x = .finite negative significand exponent)
    (hy : parts y = .finite negative significand' exponent')
    (hmagnitude : (significand * 2 ^ exponent : ℚ) = significand' * 2 ^ exponent') : x = y := by
  have hcompare := (canonical_of_parts hx).1.cmp_eq (canonical_of_parts hy).1
  rw [(cmp_eq_eq_iff _ _).mpr hmagnitude, eq_comm, Ordering.then_eq_eq, compare_eq_iff_eq,
    compare_eq_iff_eq] at hcompare
  rw [← ofWord_encode_of_parts hx, ← ofWord_encode_of_parts hy, hcompare.1, hcompare.2]

/-- Only zeros share their value with another number. -/
theorem eq_or_isZero_of_value {x y : Float32} {a : Extended} (hx : value? x = some a)
    (hy : value? y = some a) : x = y ∨ isZero x = true ∧ isZero y = true := by
  by_cases hlow : a = ⊥
  · exact .inl (eq_of_isInfinite ((isInfinite_iff_value hx).1.mpr hlow)
      ((isInfinite_iff_value hy).1.mpr hlow))
  by_cases hhigh : a = ⊤
  · exact .inl (eq_of_isInfinite ((isInfinite_iff_value hx).2.mpr hhigh)
      ((isInfinite_iff_value hy).2.mpr hhigh))
  have hfinite : ∀ {z : Float32}, value? z = some a →
      ∃ negative significand exponent, parts z = .finite negative significand exponent := by
    intro z hz
    apply exists_parts_finite (isNotANumber_of_value hz)
    · rw [← Bool.not_eq_true, (isInfinite_iff_value hz).1]
      exact hlow
    · rw [← Bool.not_eq_true, (isInfinite_iff_value hz).2]
      exact hhigh
  obtain ⟨negative, significand, exponent, hparts⟩ := hfinite hx
  obtain ⟨negative', significand', exponent', hparts'⟩ := hfinite hy
  have hvalues := (value?_of_parts hparts).symm.trans (hx.trans (hy.symm.trans
    (value?_of_parts hparts')))
  rw [Option.some_inj, WithBot.coe_inj, WithTop.coe_inj] at hvalues
  have hpos := Format.two_zpow_pos exponent
  have hpos' := Format.two_zpow_pos exponent'
  by_cases hsign : negative = negative'
  · subst hsign
    refine .inl (eq_of_magnitude hparts hparts' (mul_left_cancel₀ ?_ hvalues))
    cases negative <;> simp
  · -- A number and one of the other sign are both zero.
    refine .inr ?_
    rw [isZero_of_parts hparts, isZero_of_parts hparts']
    have hnonneg : (0 : ℚ) ≤ significand * 2 ^ exponent := by positivity
    have hnonneg' : (0 : ℚ) ≤ significand' * 2 ^ exponent' := by positivity
    have hzeros : (significand * 2 ^ exponent : ℚ) = 0 ∧
        (significand' * 2 ^ exponent' : ℚ) = 0 := by
      rcases Bool.eq_false_or_eq_true negative with rfl | rfl
      · rw [Bool.eq_false_iff.mpr (Ne.symm hsign), if_pos rfl, if_neg Bool.false_ne_true] at hvalues
        constructor <;> linarith
      · rw [Bool.eq_true_of_not_eq_false (Ne.symm hsign), if_neg Bool.false_ne_true,
          if_pos rfl] at hvalues
        constructor <;> linarith
    exact ⟨by simpa [hpos.ne'] using hzeros.1, by simpa [hpos'.ne'] using hzeros.2⟩

/-! ## Comparisons -/

theorem numbers_of_lt {x y : Float32} (hlt : x < y) :
    isNotANumber x = false ∧ isNotANumber y = false := by
  have hcompare : x.toModel.unpack.compare y.toModel.unpack = some .lt := by
    change decide ((UnpackedFloat.compare _ _ == some .lt) = true) = true at hlt
    rwa [decide_eq_true_iff, beq_iff_eq] at hlt
  unfold isNotANumber Float32.isNaN Float32.Model.isNaN
  cases hx : x.toModel.unpack with
  | notANumber =>
      rw [hx] at hcompare
      cases hcompare
  | infinity | zero | finite =>
      cases hy : y.toModel.unpack with
      | notANumber =>
          rw [hx, hy] at hcompare
          cases hcompare
      | infinity | zero | finite => exact ⟨rfl, rfl⟩

/-- What the extrema need to know of a comparison.  The infinity of the sign comes before every
other number. -/
structure Precedes (negative : Bool) (before : Float32 → Float32 → Prop) : Prop where
  numbers {x y : Float32} : before x y → isNotANumber x = false ∧ isNotANumber y = false
  asymm {x y : Float32} : before x y → ¬ before y x
  zeros {x y : Float32} : isZero x = true → isZero y = true → ¬ before x y
  infinite {x y : Float32} : isInfinite x negative = true → isNotANumber y = false → y ≠ x →
    before x y
  connected {x y : Float32} : isNotANumber x = false → isNotANumber y = false → ¬ before x y →
    ¬ before y x → x = y ∨ isZero x = true ∧ isZero y = true

theorem isInfinite_number {x : Float32} {negative : Bool} (hx : isInfinite x negative = true) :
    isNotANumber x = false ∧ isZero x = false := by
  rw [eq_infinity_of_parts ((isInfinite_iff x negative).mp hx)]
  clear hx
  revert negative
  decide

theorem precedes_lt : Precedes true (· < ·) where
  numbers := numbers_of_lt
  asymm {x y} hlt := by
    obtain ⟨a, hx⟩ := exists_value (numbers_of_lt hlt).1
    obtain ⟨b, hy⟩ := exists_value (numbers_of_lt hlt).2
    rw [lt_iff_value hx hy] at hlt
    rw [lt_iff_value hy hx]
    exact hlt.not_gt
  zeros {x y} hx hy hlt := by
    obtain ⟨a, ha⟩ := exists_value (numbers_of_lt hlt).1
    obtain ⟨b, hb⟩ := exists_value (numbers_of_lt hlt).2
    rw [lt_iff_value ha hb, eq_of_isZero ha hb hx hy] at hlt
    exact lt_irrefl b hlt
  infinite {x y} hx hy hne := by
    obtain ⟨a, ha⟩ := exists_value (isInfinite_number hx).1
    obtain ⟨b, hb⟩ := exists_value hy
    have hbottom : a = ⊥ := (isInfinite_iff_value ha).1.mp hx
    have hother : b ≠ ⊥ := fun hb' =>
      hne (eq_of_isInfinite ((isInfinite_iff_value hb).1.mpr hb') hx)
    rw [lt_iff_value ha hb, hbottom]
    exact bot_lt_iff_ne_bot.mpr hother
  connected {x y} hx hy hxy hyx := by
    obtain ⟨a, ha⟩ := exists_value hx
    obtain ⟨b, hb⟩ := exists_value hy
    rw [lt_iff_value ha hb, not_lt] at hxy
    rw [lt_iff_value hb ha, not_lt] at hyx
    rw [le_antisymm hxy hyx] at hb
    exact eq_or_isZero_of_value ha hb

theorem precedes_gt : Precedes false (fun x y => y < x) where
  numbers hlt := (numbers_of_lt hlt).symm
  asymm := precedes_lt.asymm
  zeros hx hy := precedes_lt.zeros hy hx
  infinite {x y} hx hy hne := by
    obtain ⟨a, ha⟩ := exists_value (isInfinite_number hx).1
    obtain ⟨b, hb⟩ := exists_value hy
    have htop : a = ⊤ := (isInfinite_iff_value ha).2.mp hx
    have hother : b ≠ ⊤ := fun hb' =>
      hne (eq_of_isInfinite ((isInfinite_iff_value hb).2.mpr hb') hx)
    rw [lt_iff_value hb ha, htop]
    exact lt_top_iff_ne_top.mpr hother
  connected hx hy hxy hyx := precedes_lt.connected hx hy hyx hxy

/-! ## The two schemes -/

section Schemes

variable (negative : Bool) (before : Float32 → Float32 → Prop) [DecidableRel before]

/-- The first number, unless the second one comes before it. -/
def compared (x y : Float32) : Float32 := if before y x then y else x

/-- The number that comes first, where zeros are told apart by their signs and what is not a number
is passed on. -/
def extremum (x y : Float32) : Float32 :=
  if isInfinite x negative then x
  else if isInfinite y negative then y
  else if isNotANumber x ∨ isNotANumber y then notANumber
  else if isZero x ∧ isZero y then if isNegative x = negative then x else y
  else if before x y then x else y

/-- The pairs whose comparison keeps the first number although the extremum is another one: what is
not a number comes second and is not passed on, or it comes first and hides the infinity, or a zero
of the other sign comes before the one that counts. -/
def Misses (x y : Float32) : Prop :=
  (isNotANumber y = true ∧ isNotANumber x = false ∧ isInfinite x negative = false) ∨
    (isNotANumber x = true ∧ isInfinite y negative = true) ∨
      (isZero x = true ∧ isZero y = true ∧ isNegative x ≠ negative ∧ isNegative y = negative)

instance (x y : Float32) : Decidable (Misses negative x y) :=
  inferInstanceAs (Decidable (_ ∨ _ ∨ _))

end Schemes

theorem minimum_eq (x y : Float32) : minimum x y = extremum true (· < ·) x y := rfl

theorem maximum_eq (x y : Float32) : maximum x y = extremum false (fun x y => y < x) x y := by
  unfold maximum extremum
  cases isNegative x <;> rfl

theorem lesser_eq (x y : Float32) : lesser x y = compared (· < ·) x y := rfl

theorem greater_eq (x y : Float32) : greater x y = compared (fun x y => y < x) x y := rfl

theorem isZero_of_isNotANumber {x : Float32} (hx : isNotANumber x = true) : isZero x = false := by
  rw [eq_notANumber hx]
  decide

namespace Precedes

variable {negative : Bool} {before : Float32 → Float32 → Prop}
  (hprecedes : Precedes negative before)
include hprecedes

theorem not_before_infinite {x y : Float32} (hx : isInfinite x negative = true) :
    ¬ before y x := by
  intro hbefore
  have hne : y ≠ x := by
    rintro rfl
    exact hprecedes.asymm hbefore hbefore
  exact hprecedes.asymm hbefore
    (hprecedes.infinite hx (hprecedes.numbers hbefore).1 hne)

variable [DecidableRel before]

theorem compared_eq_extremum_iff (x y : Float32) :
    compared before x y = extremum negative before x y ↔ ¬ Misses negative x y := by
  unfold compared extremum Misses
  by_cases hx : isInfinite x negative = true
  · have hnumber := isInfinite_number hx
    simp [hx, hnumber, hprecedes.not_before_infinite hx]
  rw [if_neg hx]
  by_cases hy : isInfinite y negative = true
  · have hnumber := isInfinite_number hy
    have hne : x ≠ y := fun hsame => hx (hsame ▸ hy)
    rw [if_pos hy]
    by_cases hnan : isNotANumber x = true
    · have hkept : ¬ before y x := fun hbefore => by
        simp [(hprecedes.numbers hbefore).2] at hnan
      simp [hkept, hnan, hy, hne]
    · rw [Bool.not_eq_true] at hnan
      simp [hprecedes.infinite hy hnan hne, hnan, hnumber]
  rw [if_neg hy]
  by_cases hnan : isNotANumber x = true ∨ isNotANumber y = true
  · have hkept : ¬ before y x := fun hbefore => by
      simp [hprecedes.numbers hbefore] at hnan
    rw [if_neg hkept, if_pos hnan]
    by_cases hfirst : isNotANumber x = true
    · refine iff_of_true (eq_notANumber hfirst) ?_
      simp [hfirst, hy, isZero_of_isNotANumber hfirst]
    · have hsecond := hnan.resolve_left hfirst
      have hne : x ≠ notANumber := fun hsame => hfirst (by rw [hsame]; decide)
      simp [hfirst, hsecond, hx, hne]
  rw [if_neg hnan]
  simp only [not_or, Bool.not_eq_true] at hnan
  by_cases hzeros : isZero x = true ∧ isZero y = true
  · rw [if_neg (hprecedes.zeros hzeros.2 hzeros.1), if_pos hzeros]
    by_cases hsign : isNegative x = negative
    · simp [hsign, hnan]
    · have hsame : x = y ↔ isNegative y ≠ negative := by
        constructor
        · rintro rfl
          exact hsign
        · intro hsign'
          apply eq_of_zeros hzeros.1 hzeros.2
          cases negative <;> simp_all
      simp [hsign, hnan, hzeros, hsame]
  · rw [if_neg hzeros]
    have hfound : ¬ Misses negative x y := by
      simp only [Misses, hnan, hy]
      tauto
    refine iff_of_true ?_ hfound
    by_cases hbefore : before x y
    · rw [if_pos hbefore, if_neg (hprecedes.asymm hbefore)]
    · rw [if_neg hbefore]
      split_ifs with hafter
      · rfl
      · exact (hprecedes.connected hnan.1 hnan.2 hbefore hafter).resolve_right hzeros

end Precedes

theorem lesser_eq_minimum_iff (x y : Float32) :
    lesser x y = minimum x y ↔ ¬ Misses true x y := by
  rw [lesser_eq, minimum_eq, precedes_lt.compared_eq_extremum_iff]

theorem greater_eq_maximum_iff (x y : Float32) :
    greater x y = maximum x y ↔ ¬ Misses false x y := by
  rw [greater_eq, maximum_eq, precedes_gt.compared_eq_extremum_iff]

end NoiseShader.Number.Binary32
