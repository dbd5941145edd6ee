import NoiseShader.Proofs.Library.Selection
import NoiseShader.Proofs.Meaning.Evaluation
import NoiseShader.Proofs.Number.Narrowing
import NoiseShader.Proofs.Number.Values
import NoiseShader.Image.ColorMap
import NoiseShader.Image.Preview
import Mathlib.Tactic

/-!
# Shades of the preview

The preview computes its colours in the shading language and the colour maps of
pictures compute bytes.  Both cut a value off at the ends of the same range, and up
to there the two computations give the same number, although one multiplies by a
half where the other divides by two and one leaves out what the other does with a
range from zero to one.  A level between zero and one then stands for the nearest
of the two hundred and fifty-six bytes.
-/

namespace NoiseShader

open Number

namespace Number.Binary32

open Float.Model (UnpackedFloat)

/-! ## Operations that change nothing -/

theorem parts_one : parts 1 = .finite false (2 ^ 23) (-23) := by
  decide

theorem nearest_self {x : Float32} {negative : Bool} {significand : ℕ} {exponent : ℤ}
    (hparts : parts x = .finite negative significand exponent) :
    nearest negative (significand * 2 ^ exponent) = x := by
  have hcanonical := (canonical_of_parts hparts).1
  rw [nearest_of_roundsTo hcanonical (by positivity) (Format.binary32.roundsTo_self ..)]
  exact ofWord_encode_of_parts hparts

theorem mul_half_eq_div_two (x : Float32) : x * 0.5 = x / 2 := by
  have hhalf : parts 0.5 = .finite false (2 ^ 23) (-24) := by decide
  have htwo : parts 2 = .finite false (2 ^ 23) (-22) := by decide
  cases hparts : parts x with
  | notANumber =>
      rw [eq_notANumber_of_parts hparts]
      decide
  | infinite negative =>
      rw [eq_infinity_of_parts hparts]
      cases negative <;> decide
  | finite negative significand exponent =>
      rw [mul_eq_nearest hparts hhalf, div_eq_nearest hparts htwo (by norm_num)]
      congr 1
      norm_num
      field_simp

theorem div_one_eq (x : Float32) : x / 1 = x := by
  cases hparts : parts x with
  | notANumber =>
      rw [eq_notANumber_of_parts hparts]
      decide
  | infinite negative =>
      rw [eq_infinity_of_parts hparts]
      cases negative <;> decide
  | finite negative significand exponent =>
      have hone : ((2 ^ 23 : ℕ) : ℚ) * 2 ^ (-23 : ℤ) = 1 := by norm_num
      rw [div_eq_nearest hparts parts_one (by norm_num), hone, div_one, Bool.xor_false,
        nearest_self hparts]

theorem sub_zero_eq (x : Float32) : x - 0 = x := by
  have hsub : ∀ u : UnpackedFloat, UnpackedFloat.sub model u (.zero .positive) = u := by
    intro u
    cases u with
    | zero sign => cases sign <;> rfl
    | notANumber | infinity | finite => rfl
  change ofUnpacked (UnpackedFloat.sub model x.toModel.unpack (.zero .positive)) = x
  rw [hsub]
  exact ofBits_toBits x

theorem sub_neg_one_eq (x : Float32) : x - -1 = x + 1 := by
  change ofUnpacked (UnpackedFloat.sub model _ _) = _
  rw [unpacked_sub_eq]
  rfl

theorem mul_comm_of_parts {x y : Float32} {negative minus : Bool} {significand other : ℕ}
    {exponent power : ℤ} (hx : parts x = .finite negative significand exponent)
    (hy : parts y = .finite minus other power) : x * y = y * x := by
  rw [mul_eq_nearest hx hy, mul_eq_nearest hy hx, Bool.xor_comm, mul_comm]

/-! ## Levels -/

/-- A number without a minus sign that has an upper bound is finite. -/
theorem exists_parts_of_le {x : Float32} {a : Extended} {bound : ℚ}
    (hsign : (parts x).sign? = some false) (hvalue : value? x = some a)
    (hle : a ≤ ((bound : WithTop ℚ) : Extended)) :
    ∃ significand exponent, parts x = .finite false significand exponent ∧
      (significand * 2 ^ exponent : ℚ) ≤ bound := by
  unfold value? at hvalue
  cases hparts : parts x with
  | notANumber => simp [hparts, Parts.sign?] at hsign
  | infinite negative =>
      rw [hparts] at hsign hvalue
      cases hsign
      cases hvalue
      exact absurd (WithBot.coe_le_coe.mp hle) (WithTop.not_top_le_coe bound)
  | finite negative significand exponent =>
      rw [hparts] at hsign hvalue
      cases hsign
      cases hvalue
      exact ⟨significand, exponent, rfl, WithTop.coe_le_coe.mp (WithBot.coe_le_coe.mp hle)⟩

theorem sign?_of_pos {x : Float32} (hpos : 0 < x) : (parts x).sign? = some false := by
  obtain ⟨a, hvalue⟩ := exists_value (numbers_of_lt hpos).2
  have hlt := (lt_iff_value (@isRational_of_isZero 0 rfl) hvalue).mp hpos
  unfold value? at hvalue
  cases hparts : parts x with
  | notANumber => simp [hparts, Parts.value?] at hvalue
  | infinite negative =>
      rw [hparts] at hvalue
      cases negative with
      | false => rfl
      | true =>
          cases hvalue
          exact absurd hlt not_lt_bot
  | finite negative significand exponent =>
      rw [hparts] at hvalue
      cases negative with
      | false => rfl
      | true =>
          cases hvalue
          have hneg := WithTop.coe_lt_coe.mp (WithBot.coe_lt_coe.mp hlt)
          have hnonneg : (0 : ℚ) ≤ significand * 2 ^ exponent := by positivity
          linarith

theorem sign?_maximum_zero {x : Float32} (hnumber : isNotANumber x = false) :
    (parts (maximum x 0)).sign? = some false := by
  have hzero : (parts 0).sign? = some false := by decide
  unfold maximum
  split_ifs with hleft hright hnan hzeros hsign hlt
  · rw [(isInfinite_iff x false).mp hleft]
    rfl
  · exact absurd hright (by decide)
  · rw [hnumber] at hnan
    exact absurd hnan (by decide)
  · exact hzero
  · obtain ⟨negative, hparts⟩ := exists_parts_of_isZero hzeros.1
    rw [isNegative_of_parts hparts] at hsign
    rw [hparts]
    simpa [Parts.sign?] using hsign
  · exact sign?_of_pos hlt
  · exact hzero

theorem sign?_minimum_one {x : Float32} (hsign : (parts x).sign? = some false) :
    (parts (minimum 1 x)).sign? = some false := by
  have hone : (parts 1).sign? = some false := by decide
  unfold minimum
  split_ifs with hleft hright hnan hzeros hnegative hlt
  · exact hone
  · rw [(isInfinite_iff x true).mp hright] at hsign
    cases hsign
  · rcases hnan with hleft' | hright'
    · exact absurd hleft' (by decide)
    · rw [eq_notANumber hright'] at hsign
      exact absurd hsign (by decide)
  · exact hone
  · exact hsign
  · exact hone
  · exact hsign

/-- A number cut off at zero and one. -/
theorem exists_parts_clamp {x : Float32} (hnumber : isNotANumber x = false) :
    ∃ significand exponent, parts (clamp x 0 1) = .finite false significand exponent ∧
      (significand * 2 ^ exponent : ℚ) ≤ 1 := by
  obtain ⟨a, hvalue⟩ := exists_value hnumber
  have hmaximum := value?_maximum hvalue (@isRational_of_isZero 0 rfl)
  exact exists_parts_of_le (sign?_minimum_one (sign?_maximum_zero hnumber))
    (value?_minimum isRational_one hmaximum) (min_le_left _ _)

theorem toByte_of_isRational {x : Float32} {n : ℕ} (hx : IsRational x n) :
    toByte x = UInt8.ofNat n := by
  obtain ⟨negative, significand, exponent, hparts, hvalue⟩ := hx.exists_parts
  unfold toByte
  rw [hparts]
  cases negative with
  | true =>
      have hnonneg : (0 : ℚ) ≤ significand * 2 ^ exponent := by positivity
      have hle : (n : ℚ) ≤ 0 := by
        rw [hvalue, if_pos rfl]
        linarith
      obtain rfl : n = 0 := by exact_mod_cast le_antisymm hle (Nat.cast_nonneg n)
      rfl
  | false =>
      rw [if_neg Bool.false_ne_true, one_mul] at hvalue
      simp only
      split_ifs with hwhole
      · obtain ⟨count, rfl⟩ := Int.eq_ofNat_of_zero_le hwhole
        rw [Int.toNat_natCast, Nat.shiftLeft_eq]
        congr 1
        exact_mod_cast hvalue.symm
      · obtain ⟨count, hcount⟩ : ∃ count : ℕ, exponent = -count := ⟨(-exponent).toNat, by omega⟩
        subst hcount
        have hsignificand : significand = n * 2 ^ count := by
          rw [zpow_neg, zpow_natCast, eq_mul_inv_iff_mul_eq₀ (by positivity)] at hvalue
          exact_mod_cast hvalue.symm
        rw [neg_neg, Int.toNat_natCast, Nat.shiftRight_eq_div_pow, hsignificand,
          Nat.mul_div_cancel _ (by positivity)]

/-- A level of at most 255 is rounded to one of the numbers that are bytes. -/
theorem exists_round_eq {x : Float32} {significand : ℕ} {exponent : ℤ}
    (hparts : parts x = .finite false significand exponent)
    (hle : (significand * 2 ^ exponent : ℚ) ≤ 255) :
    ∃ n ≤ 255, round x = Float32.ofNat n := by
  have hfull : 2 ^ 23 ≤ significand ∨ exponent = -149 := (canonical_of_parts hparts).1.full
  have hround : round x = if significand = 0 ∨ 0 ≤ exponent then x
      else Float32.ofNat ((significand >>> ((-exponent).toNat - 1) + 1) / 2) := by
    rw [round, hparts]
    rfl
  rcases Nat.eq_zero_or_pos significand with hzero | hpos
  · refine ⟨0, by omega, ?_⟩
    rw [hround, if_pos (.inl hzero), ← nearest_self hparts, hzero, Nat.cast_zero, zero_mul]
    rfl
  · have hexponent : exponent < 0 := by
      by_contra hnonneg
      obtain ⟨count, rfl⟩ := Int.eq_ofNat_of_zero_le (not_lt.mp hnonneg)
      have hlarge : 2 ^ 23 ≤ significand * 2 ^ count :=
        (hfull.resolve_right (by omega)).trans (Nat.le_mul_of_pos_right _ (by positivity))
      have hsmall : significand * 2 ^ count ≤ 255 := by exact_mod_cast hle
      omega
    obtain ⟨count, rfl⟩ : ∃ count : ℕ, exponent = -(count + 1 : ℕ) :=
      ⟨(-exponent).toNat - 1, by omega⟩
    refine ⟨_, ?_, by rw [hround, if_neg (by omega)]⟩
    have hbound : significand ≤ 510 * 2 ^ count := by
      rw [zpow_neg, zpow_natCast, ← div_eq_mul_inv, div_le_iff₀ (by positivity), pow_succ] at hle
      have hcast : (significand : ℚ) ≤ 510 * 2 ^ count := by linarith
      exact_mod_cast hcast
    have hhalves : significand / 2 ^ count ≤ 510 :=
      Nat.div_le_of_le_mul (by rwa [Nat.mul_comm])
    rw [neg_neg, Int.toNat_natCast, Nat.add_sub_cancel, Nat.shiftRight_eq_div_pow]
    omega

theorem isNotANumber_of_isFinite {x : Float32} (hfinite : isFinite x = true) :
    isNotANumber x = false := by
  obtain ⟨number, hrational⟩ := exists_isRational hfinite
  exact isNotANumber_of_value hrational

theorem isNotANumber_add_one {x : Float32} (hfinite : isFinite x = true) :
    isNotANumber (x + 1) = false := by
  obtain ⟨number, hrational⟩ := exists_isRational hfinite
  exact isNotANumber_of_value (value?_add hrational isRational_one)

theorem isNotANumber_div_two {x : Float32} (hnumber : isNotANumber x = false) :
    isNotANumber (x / 2) = false := by
  cases hparts : parts x with
  | notANumber =>
      rw [eq_notANumber_of_parts hparts] at hnumber
      exact absurd hnumber (by decide)
  | infinite negative =>
      rw [eq_infinity_of_parts hparts]
      cases negative <;> decide
  | finite negative significand exponent =>
      have htwo : IsRational 2 2 := isRational_ofNat (n := 2) (by norm_num)
      exact isNotANumber_of_value (value?_div (value?_of_parts hparts) htwo two_ne_zero)

/-- A number cut off at zero and one is rounded to the byte that it is stored as. -/
theorem round_clamp {x : Float32} (hnumber : isNotANumber x = false) :
    round (255 * clamp x 0 1) =
      Float32.ofNat (toByte (round (clamp x 0 1 * 255))).toNat := by
  have htop : parts 255 = .finite false (255 * 2 ^ 16) (-16) := by decide
  have hrational : IsRational 255 255 := by
    have hvalue := isRational_of_parts htop
    norm_num at hvalue
    exact hvalue
  obtain ⟨significand, exponent, hparts, hle⟩ := exists_parts_clamp hnumber
  have hproduct := value?_mul (isRational_of_parts hparts) hrational
  have hsign : (parts (clamp x 0 1 * 255)).sign? = some false := by
    rw [mul_eq_nearest hparts htop]
    exact sign?_roundRatio _ _ (Rat.den_pos _)
  have hbound : roundedValue (significand * 2 ^ exponent * 255) ≤
      (((255 : ℚ) : WithTop ℚ) : Extended) := by
    rw [← hrational.rounded.1]
    exact roundedValue_mono (by linarith)
  obtain ⟨other, power, hparts', hle'⟩ := exists_parts_of_le hsign hproduct hbound
  obtain ⟨n, hn, hround⟩ := exists_round_eq hparts' hle'
  rw [mul_comm_of_parts htop hparts, hround, toByte_of_isRational (isRational_ofNat (by omega)),
    UInt8.toNat_ofNat', Nat.mod_eq_of_lt (by omega)]

end Number.Binary32

open Binary32 (clamp isFinite isNotANumber round)

/-! ## Levels of a colour map -/

/-- A level between zero and one stands for a byte. -/
def Shows (level : Float32) (byte : UInt8) : Prop :=
  round (255 * level) = Float32.ofNat byte.toNat

theorem rangeFraction_centered (v : Float32) :
    rangeFraction v (-1) 1 = clamp ((v + 1) * 0.5) 0 1 := by
  have hlength : (1 - -1 : Float32) = 2 := by decide +kernel
  rw [rangeFraction, hlength, Binary32.sub_neg_one_eq, Binary32.mul_half_eq_div_two]

theorem rangeFraction_unit (v : Float32) : rangeFraction v 0 1 = clamp v 0 1 := by
  have hlength : (1 - 0 : Float32) = 1 := by decide +kernel
  rw [rangeFraction, hlength, Binary32.sub_zero_eq, Binary32.div_one_eq]

theorem shows_centered {v : Float32} (hfinite : isFinite v = true) :
    Shows (clamp ((v + 1) * 0.5) 0 1) (rangeByte v (-1) 1) := by
  rw [Shows, rangeByte, rangeFraction_centered, Binary32.mul_half_eq_div_two]
  exact Binary32.round_clamp (Binary32.isNotANumber_div_two (Binary32.isNotANumber_add_one hfinite))

theorem shows_unit {v : Float32} (hfinite : isFinite v = true) :
    Shows (clamp v 0 1) (rangeByte v 0 1) := by
  rw [Shows, rangeByte, rangeFraction_unit]
  exact Binary32.round_clamp (Binary32.isNotANumber_of_isFinite hfinite)

theorem highByte_widen (byte : UInt8) : highByte (widen byte) = byte := by
  have hlt := byte.toNat_lt
  have hhigh : byte.toNat * 0x101 / 256 = byte.toNat := by omega
  rw [highByte, widen, hhigh, UInt8.ofNat_toNat]

/-! ## The colour of the preview -/

namespace Meaning

/-- A value cut off at two numbers, component by component. -/
def clampEach : List Value → Option Value
  | [value, .float low, .float high] =>
    Value.ofComponents (value.components.map (clamp · low high))
  | _ => none

/-- Calls of the one function of a colour that is not a constructor. -/
def colorCalls : Calls := fun function arguments =>
  if function = "clamp" then orFail (.wrongArguments function) (clampEach arguments)
  else .error (.missingFunction function)

end Meaning

/-- The expressions that a tree assigns to a variable. -/
def Node.assigned (target : String) (tree : Node) : List Node :=
  tree.preorder.filterMap fun
    | .assignment (.identifier name) value => if name = target then some value else none
    | _ => none

open Meaning

namespace Preview

theorem program_eq {kernel : NoiseKernel} {type : String} {color : Node}
    (hfind : NoiseKernel.find kernel.name = .ok kernel)
    (hshading : shading kernel.components = some (type, color))
    (hknown : (mainFunction kernel.name type color).toNode.Known) :
    ∃ kept, program kernel.name = .ok ⟨kept, (mainFunction kernel.name type color).toNode⟩ := by
  obtain ⟨kept, hkept, hsublist, -⟩ :=
    @Library.referenced_eq [(mainFunction kernel.name type color).toNode] (by simpa using hknown)
  have hname : "main" ∉ Library.contents.map Definition.name := by decide
  have hproper := Library.proper_selection hknown hname hsublist
  have hcreate := Program.create_eq_ok_iff.mpr ⟨rfl, hproper⟩
  refine ⟨kept, ?_⟩
  unfold program
  rw [hfind]
  simp only [hshading, hkept, hcreate, Except.mapError, bind, Except.bind]

end Preview

/-- A colour expression of a variable shows values as a colour map does, without transparency. -/
def ShadesLike (color : Node) (name : String) (map : ColorMap) (values : List Float32) : Prop :=
  ∃ value shown r g b red green blue,
    Value.ofComponents values = some value ∧
    evaluate colorCalls [(name, value)] color = .ok (.vec4 ⟨r, g, b, 1⟩) ∧
    map.color? values = some shown ∧
    PixelFormat.rgba.store shown = .rgba red green blue 255 ∧
    Shows r red ∧ Shows g green ∧ Shows b blue

theorem store_gray (level : UInt8) :
    PixelFormat.rgba.store (.gray level) = .rgba level level level 255 := by
  simp only [PixelFormat.store, Color.channels, highByte_widen]
  rfl

theorem store_solid (red green blue : UInt8) :
    PixelFormat.rgba.store (.rgba red green blue 255) = .rgba red green blue 255 := by
  simp only [PixelFormat.store, Color.channels, highByte_widen]

namespace Preview

theorem shading_one (v : Float32) (hfinite : isFinite v = true) {type : String} {color : Node}
    (hshading : shading 1 = some (type, color)) :
    ShadesLike color "v" (.default 1) [v] := by
  cases hshading
  have hshown : (ColorMap.default 1).color? [v] = some (.gray (rangeByte v (-1) 1)) := by
    simp [ColorMap.default, ColorMap.color?, hfinite]
  have hshows := shows_centered hfinite
  exact ⟨.float v, _, _, _, _, _, _, _, rfl, rfl, hshown, store_gray _, hshows, hshows, hshows⟩

theorem shading_two (v w : Float32) (hfinite : isFinite v = true) {type : String} {color : Node}
    (hshading : shading 2 = some (type, color)) :
    ShadesLike color "v" (.default 2) [v, w] := by
  cases hshading
  have hshown : (ColorMap.default 2).color? [v, w] = some (.gray (rangeByte v 0 1)) := by
    simp [ColorMap.default, ColorMap.color?, hfinite]
  have hshows := shows_unit hfinite
  exact ⟨.vec2 ⟨v, w⟩, _, _, _, _, _, _, _, rfl, rfl, hshown, store_gray _, hshows, hshows, hshows⟩

theorem shading_three (x y z : Float32) (hx : isFinite x = true) (hy : isFinite y = true)
    (hz : isFinite z = true) {type : String} {color : Node}
    (hshading : shading 3 = some (type, color)) :
    ShadesLike color "v" (.default 3) [x, y, z] := by
  cases hshading
  have hshown : (ColorMap.default 3).color? [x, y, z] =
      some (.rgba (rangeByte x 0 1) (rangeByte y 0 1) (rangeByte z 0 1) 255) := by
    simp [ColorMap.default, ColorMap.color?, hx, hy, hz]
  exact ⟨.vec3 ⟨x, y, z⟩, _, _, _, _, _, _, _, rfl, rfl, hshown, store_solid _ _ _,
    shows_unit hx, shows_unit hy, shows_unit hz⟩

/-- The colour of a preview for at most three components. -/
theorem shading_shadesLike {components : ℤ} {type : String} {color : Node} {values : List Float32}
    (hshading : shading components = some (type, color)) (hcount : components ≤ 3)
    (hlength : (values.length : ℤ) = components)
    (hfinite : ∀ x ∈ values, isFinite x = true) :
    ShadesLike color "v" (.default components) values := by
  match values, hlength, hfinite with
  | [], hlength, _ =>
      subst hlength
      cases hshading
  | [v], hlength, hfinite =>
      subst hlength
      exact shading_one v (hfinite v (by simp)) hshading
  | [v, w], hlength, hfinite =>
      subst hlength
      exact shading_two v w (hfinite v (by simp)) hshading
  | [x, y, z], hlength, hfinite =>
      subst hlength
      exact shading_three x y z (hfinite x (by simp)) (hfinite y (by simp)) (hfinite z (by simp))
        hshading
  | _ :: _ :: _ :: _ :: _, hlength, _ =>
      simp only [List.length_cons] at hlength
      omega

/-- Every kernel has a colour for its components, and its preview assigns nothing else. -/
theorem exists_shading {kernel : NoiseKernel} (hkernel : kernel ∈ NoiseKernel.all) :
    ∃ type color, NoiseKernel.find kernel.name = .ok kernel ∧ kernel.components ≤ 3 ∧
      shading kernel.components = some (type, color) ∧
      (mainFunction kernel.name type color).toNode.unknown? = none ∧
      (mainFunction kernel.name type color).toNode.assigned "fragColor" = [color] := by
  simp only [NoiseKernel.all, List.mem_cons, List.not_mem_nil, or_false] at hkernel
  rcases hkernel with rfl | rfl | rfl | rfl | rfl
  all_goals exact ⟨_, _, rfl, by decide, rfl, rfl, rfl⟩

/-- The preview of a kernel and its pictures show every finite value in the same colour. -/
theorem preview_shades_like_pictures (kernel : NoiseKernel) (hkernel : kernel ∈ NoiseKernel.all)
    (values : List Float32) (hlength : (values.length : ℤ) = kernel.components)
    (hfinite : ∀ x ∈ values, isFinite x = true) :
    ∃ program color, Preview.program kernel.name = .ok program ∧
      program.main.assigned "fragColor" = [color] ∧
      ShadesLike color "v" (.default kernel.components) values := by
  obtain ⟨type, color, hfind, hcount, hshading, hknown, hassigned⟩ := exists_shading hkernel
  obtain ⟨kept, hprogram⟩ := program_eq hfind hshading (Node.unknown?_eq_none.mp hknown)
  exact ⟨_, color, hprogram, hassigned, shading_shadesLike hshading hcount hlength hfinite⟩

/-- A subnormal number, the greatest number and the zero with a minus sign. -/
theorem preview_shades_like_pictures_gradient :
    let values := [Float32.ofBits 1, Float32.ofBits 0x7f7fffff, Float32.ofBits 0x80000000]
    (∀ x ∈ values, isFinite x = true) ∧
      ∃ program color, Preview.program "gradient" = .ok program ∧
        program.main.assigned "fragColor" = [color] ∧
        ShadesLike color "v" (.default 3) values := by
  intro values
  have hfinite : ∀ x ∈ values, isFinite x = true := by decide
  exact ⟨hfinite, preview_shades_like_pictures
    ⟨"gradient", 3, some fun p => Components.toList (Noise.gradient p)⟩
    (.tail _ (.tail _ (.head _))) values rfl hfinite⟩

end Preview

end NoiseShader
