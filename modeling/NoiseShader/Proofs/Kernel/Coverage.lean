import NoiseShader.Kernel.Grid
import NoiseShader.Proofs.Number.Values
import Mathlib.Tactic

/-!
# What a grid covers

The samples of an axis start at its lower end and never go back, because every
operation that makes them is monotone.  Where they stop depends on rounding: the
difference of the ends and the spacing are rounded before the last sample is
computed from them, so that it may fall short of the upper end or pass it.  A grid
ends at the upper corner exactly if both of its axes land on their upper ends, which
they do if neither the difference nor the spacing has been rounded.  It stays inside
the rectangle exactly if no axis passes its upper end.
-/

namespace NoiseShader.Grid

open Number
open Binary32 (IsRational eq_top_or_rational exists_between exists_isRational isFinite
  isRational_of_isZero isRational_one le_iff_value rational_le_iff roundedValue roundedValue_mono
  roundedValue_zero value? value?_add value?_add_top value?_div value?_mul value?_ofNat value?_sub)

/-! ## Samples of an axis -/

/-- The ends of an axis are finite and in order, and so is their distance. -/
structure Spans (low high : Float32) : Prop where
  low_finite : isFinite low = true
  high_finite : isFinite high = true
  ordered : low ≤ high
  difference_finite : isFinite (high - low) = true

/-- Numbers of steps are rounded, and in order. -/
theorem exists_ofNat {index : ℕ} (hindex : index < 2 ^ 63) :
    ∃ number, IsRational (Float32.ofNat index) number ∧ 0 ≤ number := by
  have hlimit := @Binary32.roundedValue_of_fits 1 63 (by norm_num) (by norm_num) (by norm_num)
  have hle : (index : ℚ) ≤ (1 : ℕ) * 2 ^ (63 : ℤ) := by
    rw [Nat.cast_one, one_mul]
    exact_mod_cast hindex.le
  obtain ⟨number, hrational, hnonneg, -⟩ := exists_between (value?_ofNat index)
    (by rw [← roundedValue_zero]; exact roundedValue_mono (Nat.cast_nonneg index))
    (by rw [← hlimit]; exact roundedValue_mono hle)
  exact ⟨number, hrational, hnonneg⟩

theorem le_of_ofNat {index other : ℕ} {number greater : ℚ} (hle : index ≤ other)
    (hnumber : IsRational (Float32.ofNat index) number)
    (hgreater : IsRational (Float32.ofNat other) greater) : number ≤ greater := by
  have hrounded : roundedValue index ≤ roundedValue other :=
    roundedValue_mono (by exact_mod_cast hle)
  have hleft : some (roundedValue index) = some _ := (value?_ofNat index).symm.trans hnumber
  have hright : some (roundedValue other) = some _ := (value?_ofNat other).symm.trans hgreater
  rw [Option.some.inj hleft, Option.some.inj hright, rational_le_iff] at hrounded
  exact hrounded

section Axis

variable {low high step : Float32} {count : ℕ}

theorem exists_spacing (hspans : Spans low high) (hcount : 2 ≤ count) (hword : count < 2 ^ 63) :
    ∃ s, IsRational (spacing low high count) s ∧ 0 ≤ s := by
  obtain ⟨p, hp⟩ := exists_isRational hspans.low_finite
  obtain ⟨q, hq⟩ := exists_isRational hspans.high_finite
  obtain ⟨d, hd⟩ := exists_isRational hspans.difference_finite
  obtain ⟨n, hn, -⟩ := @exists_ofNat (count - 1) (by omega)
  have hordered : p ≤ q := rational_le_iff.mp ((le_iff_value hp hq).mp hspans.ordered)
  have hdifference : (0 : ℚ) ≤ d := by
    have hrounded : roundedValue 0 ≤ roundedValue (q - p) := roundedValue_mono (by linarith)
    have hvalue : some (roundedValue (q - p)) = some _ := (value?_sub hq hp).symm.trans hd
    rw [Option.some.inj hvalue, roundedValue_zero, rational_le_iff] at hrounded
    exact hrounded
  have hsteps : 1 ≤ n := le_of_ofNat (by omega : 1 ≤ count - 1) isRational_one hn
  have hquotient : d / n ≤ d := div_le_self hdifference hsteps
  obtain ⟨s, hs, hnonneg, -⟩ := exists_between (value?_div hd hn (by linarith))
    (by rw [← roundedValue_zero]; exact roundedValue_mono (by positivity))
    (by rw [← hd.rounded.1]; exact roundedValue_mono hquotient)
  refine ⟨s, ?_, hnonneg⟩
  rw [spacing, if_pos (by omega)]
  exact hs

/-- What is added to a number may be infinite, and the sum grows with it. -/
theorem exists_sums {x y z : Float32} {p : ℚ} {b c : Extended} (hx : IsRational x p)
    (hy : value? y = some b) (hz : value? z = some c)
    (hnonneg : ((0 : ℚ) : WithTop ℚ) ≤ b) (hle : b ≤ c) :
    ∃ a a', value? (x + y) = some a ∧ value? (x + z) = some a' ∧ a ≤ a' := by
  rcases eq_top_or_rational hnonneg with rfl | ⟨t, rfl⟩
  · obtain rfl := top_le_iff.mp hle
    exact ⟨⊤, ⊤, value?_add_top hx hy, value?_add_top hx hz, le_rfl⟩
  · rcases eq_top_or_rational (hnonneg.trans hle) with rfl | ⟨t', rfl⟩
    · exact ⟨_, ⊤, value?_add hx hy, value?_add_top hx hz, le_top⟩
    · have hterms : p + t ≤ p + t' := by linarith [rational_le_iff.mp hle]
      exact ⟨_, _, value?_add hx hy, value?_add hx hz, roundedValue_mono hterms⟩

theorem exists_coordinates (hspans : Spans low high) (hcount : 2 ≤ count) (hword : count < 2 ^ 63)
    {index other : ℕ} (hle : index ≤ other) (hother : other < count) :
    ∃ a a', value? (coordinate low (spacing low high count) index) = some a ∧
      value? (coordinate low (spacing low high count) other) = some a' ∧ a ≤ a' := by
  obtain ⟨p, hp⟩ := exists_isRational hspans.low_finite
  obtain ⟨s, hs, hnonneg⟩ := exists_spacing hspans hcount hword
  obtain ⟨n, hn, hpos⟩ := @exists_ofNat index (by omega)
  obtain ⟨m, hm, -⟩ := @exists_ofNat other (by omega)
  have hsteps : n * s ≤ m * s := mul_le_mul_of_nonneg_right (le_of_ofNat hle hn hm) hnonneg
  refine exists_sums hp (value?_mul hn hs) (value?_mul hm hs) ?_ (roundedValue_mono hsteps)
  rw [← roundedValue_zero]
  exact roundedValue_mono (by positivity)

theorem coordinate_mono (hspans : Spans low high) (hcount : 2 ≤ count) (hword : count < 2 ^ 63)
    {index other : ℕ} (hle : index ≤ other) (hother : other < count) :
    coordinate low (spacing low high count) index ≤
      coordinate low (spacing low high count) other := by
  obtain ⟨a, a', hindex, hother', hvalues⟩ := exists_coordinates hspans hcount hword hle hother
  exact (le_iff_value hindex hother').mpr hvalues

theorem coordinate_zero (hspans : Spans low high) (hcount : 2 ≤ count) (hword : count < 2 ^ 63) :
    coordinate low (spacing low high count) 0 == low := by
  obtain ⟨p, hp⟩ := exists_isRational hspans.low_finite
  obtain ⟨s, hs, -⟩ := exists_spacing hspans hcount hword
  have hproduct := value?_mul (@isRational_of_isZero (Float32.ofNat 0) rfl) hs
  rw [zero_mul, roundedValue_zero] at hproduct
  have hsum := value?_add hp hproduct
  rw [add_zero, hp.rounded.1] at hsum
  exact (Binary32.beq_iff_value hsum hp).mpr rfl

theorem low_le_coordinate (hspans : Spans low high) (hcount : 2 ≤ count) (hword : count < 2 ^ 63)
    {index : ℕ} (hindex : index < count) :
    low ≤ coordinate low (spacing low high count) index := by
  obtain ⟨p, hp⟩ := exists_isRational hspans.low_finite
  obtain ⟨a, a', hzero, hother, hle⟩ :=
    exists_coordinates hspans hcount hword (Nat.zero_le index) hindex
  have hstart := (Binary32.beq_iff_value hzero hp).mp (coordinate_zero hspans hcount hword)
  exact (le_iff_value hp hother).mpr (hstart ▸ hle)

end Axis

/-- The last sample of an axis is its upper end. -/
def Lands (low high : Float32) (count : ℕ) : Prop :=
  coordinate low (spacing low high count) (count - 1) == high

/-- The last sample of an axis does not pass its upper end. -/
def Stops (low high : Float32) (count : ℕ) : Prop :=
  coordinate low (spacing low high count) (count - 1) ≤ high

theorem Lands.stops {low high : Float32} {count : ℕ} (hlands : Lands low high count)
    (hspans : Spans low high) (hcount : 2 ≤ count) (hword : count < 2 ^ 63) :
    Stops low high count := by
  obtain ⟨q, hq⟩ := exists_isRational hspans.high_finite
  obtain ⟨a, -, hlast, -, -⟩ :=
    @exists_coordinates _ _ _ hspans hcount hword (count - 1) _ le_rfl (by omega)
  exact (le_iff_value hlast hq).mpr ((Binary32.beq_iff_value hlast hq).mp hlands).le

theorem Stops.coordinate_le {low high : Float32} {count : ℕ} (hstops : Stops low high count)
    (hspans : Spans low high) (hcount : 2 ≤ count) (hword : count < 2 ^ 63) {index : ℕ}
    (hindex : index < count) : coordinate low (spacing low high count) index ≤ high := by
  obtain ⟨q, hq⟩ := exists_isRational hspans.high_finite
  obtain ⟨a, a', hbefore, hlast, hle⟩ :=
    exists_coordinates hspans hcount hword (Nat.le_sub_one_of_lt hindex) (by omega)
  exact (le_iff_value hbefore hq).mpr (hle.trans ((le_iff_value hlast hq).mp hstops))

/-- Neither the distance of the ends nor the spacing of the samples is rounded. -/
structure Exact (low high : Float32) (count : ℕ) : Prop where
  few : count ≤ 2 ^ 24
  exists_values : ∃ p q, IsRational low p ∧ IsRational high q ∧ IsRational (high - low) (q - p) ∧
    IsRational (spacing low high count) ((q - p) / (count - 1 : ℕ))

theorem Exact.lands {low high : Float32} {count : ℕ} (hexact : Exact low high count)
    (hcount : 2 ≤ count) : Lands low high count := by
  obtain ⟨p, q, hp, hq, hdistance, hspacing⟩ := hexact.exists_values
  have hfew := hexact.few
  have hsteps : IsRational (Float32.ofNat (count - 1)) (count - 1 : ℕ) :=
    Binary32.isRational_ofNat (by omega)
  have hpos : ((count - 1 : ℕ) : ℚ) ≠ 0 := Nat.cast_ne_zero.mpr (by omega)
  have hproduct := value?_mul hsteps hspacing
  rw [mul_div_cancel₀ _ hpos, hdistance.rounded.1] at hproduct
  have hsum := value?_add hp hproduct
  rw [add_sub_cancel, hq.rounded.1] at hsum
  exact (Binary32.beq_iff_value hsum hq).mpr rfl

/-! ## Positions -/

/-- Positions row by row. -/
def rowMajor (x y : ℕ → UInt32) (columns rows : ℕ) : List Point :=
  (List.range rows).flatMap fun row => (List.range columns).map fun column => ⟨x column, y row⟩

section RowMajor

variable (x y : ℕ → UInt32) (columns rows : ℕ)

theorem rowMajor_succ : rowMajor x y columns (rows + 1) =
    rowMajor x y columns rows ++ (List.range columns).map fun column => ⟨x column, y rows⟩ := by
  simp [rowMajor, List.range_succ]

theorem length_rowMajor : (rowMajor x y columns rows).length = columns * rows := by
  induction rows with
  | zero => rfl
  | succ rows ih => rw [rowMajor_succ, List.length_append, ih, List.length_map, List.length_range,
      Nat.mul_succ]

theorem getElem?_rowMajor {column row : ℕ} (hcolumn : column < columns) (hrow : row < rows) :
    (rowMajor x y columns rows)[columns * row + column]? = some ⟨x column, y row⟩ := by
  induction rows with
  | zero => exact absurd hrow (Nat.not_lt_zero row)
  | succ rows ih =>
      rw [rowMajor_succ]
      rcases Nat.lt_succ_iff_lt_or_eq.mp hrow with hbefore | rfl
      · have hinside : columns * row + column < columns * rows := by
          calc columns * row + column < columns * row + columns := by omega
            _ = columns * (row + 1) := (Nat.mul_succ ..).symm
            _ ≤ columns * rows := Nat.mul_le_mul_left _ hbefore
        rw [List.getElem?_append_left (by rwa [length_rowMajor]), ih hbefore]
      · rw [List.getElem?_append_right (by rw [length_rowMajor]; omega), length_rowMajor,
          Nat.add_sub_cancel_left, List.getElem?_map, List.getElem?_range hcolumn]
        rfl

theorem getLast?_rowMajor {columns rows : ℕ} (hcolumns : 0 < columns) (hrows : 0 < rows) :
    (rowMajor x y columns rows).getLast? = some ⟨x (columns - 1), y (rows - 1)⟩ := by
  have hindex : columns * rows - 1 = columns * (rows - 1) + (columns - 1) := by
    obtain ⟨above, rfl⟩ : ∃ above, rows = above + 1 := ⟨rows - 1, by omega⟩
    rw [Nat.mul_succ, Nat.add_sub_cancel]
    omega
  rw [List.getLast?_eq_getElem?, length_rowMajor, hindex,
    getElem?_rowMajor _ _ _ _ (by omega) (by omega)]

theorem mem_rowMajor {position : Point} : position ∈ rowMajor x y columns rows ↔
    ∃ column < columns, ∃ row < rows, position = ⟨x column, y row⟩ := by
  simp only [rowMajor, List.mem_flatMap, List.mem_range, List.mem_map]
  grind

end RowMajor

/-- The word of a sample. -/
def sample (low high : UInt32) (count index : ℕ) : UInt32 :=
  coordinateWord low high (coordinate (Float32.ofBits low)
    (spacing (Float32.ofBits low) (Float32.ofBits high) count) index)

theorem positions_eq (low high : Point) (columns rows : ℕ) :
    positions low high columns rows =
      rowMajor (sample low.x high.x columns) (sample low.y high.y rows) columns rows := by
  simp only [positions, axis, rowMajor, List.flatMap_map, List.map_map]
  rfl

section Growth

variable {length columns rows : ℕ}

theorem machineInt_neg_iff (count : ℕ) : machineInt count < 0 ↔ 2 ^ 63 ≤ count % 2 ^ 64 := by
  rw [machineInt, Int.bmod_def]
  split_ifs <;> omega

theorem checkGrowth_of_le (hroom : length + columns * rows ≤ 2 ^ 45) :
    checkGrowth length columns rows = .ok () := by
  have hlimit : longestBuffer = 2 ^ 45 := rfl
  have hcount : machineInt ((columns : ℤ) * rows) = (columns * rows : ℕ) := by
    rw [machineInt_eq (by positivity) (by norm_cast; omega), Nat.cast_mul]
  unfold checkGrowth
  rw [hcount]
  simp only
  rw [if_neg (by omega), if_neg (by omega)]

theorem checkGrowth_of_neg (hneg : machineInt (columns * rows : ℕ) < 0) :
    checkGrowth length columns rows = .error .negativeGrowth := by
  unfold checkGrowth
  rw [← Nat.cast_mul]
  exact if_pos hneg

theorem checkGrowth_of_nonneg (hnonneg : ¬machineInt (columns * rows : ℕ) < 0) :
    checkGrowth length columns rows = .error .longBuffer ∨
      checkGrowth length columns rows = .ok () := by
  unfold checkGrowth
  rw [← Nat.cast_mul]
  simp only [if_neg hnonneg]
  split_ifs
  · exact Or.inl rfl
  · exact Or.inr rfl

theorem append_eq {before : List Point} (hcolumns : 1 ≤ columns) (hrows : 1 ≤ rows)
    (low high : Point) :
    append before low high columns rows =
      if before.length + columns * rows ≤ 2 ^ 45 then
        .ok (before ++ positions low high columns rows)
      else .error (if columns * rows % 2 ^ 64 < 2 ^ 63 then .longBuffer else .negativeGrowth) := by
  have hlimit : longestBuffer = 2 ^ 45 := rfl
  have hcount : ((columns : ℤ) * rows) = (columns * rows : ℕ) := (Nat.cast_mul ..).symm
  unfold append
  rw [if_neg (by omega)]
  by_cases hroom : before.length + columns * rows ≤ 2 ^ 45
  · rw [checkGrowth_of_le hroom, if_pos hroom, Int.toNat_natCast, Int.toNat_natCast]
    exact if_neg (by omega)
  · rw [if_neg hroom]
    by_cases hneg : machineInt (columns * rows : ℕ) < 0
    · have hwrapped := (machineInt_neg_iff _).mp hneg
      rw [checkGrowth_of_neg hneg, if_neg (by omega : ¬columns * rows % 2 ^ 64 < 2 ^ 63)]
    · have hword := mt (machineInt_neg_iff _).mpr hneg
      rw [if_pos (by omega : columns * rows % 2 ^ 64 < 2 ^ 63)]
      -- either the word of the count is too great already or the positions are too many
      rcases @checkGrowth_of_nonneg before.length _ _ hneg with hgrowth | hgrowth
      · rw [hgrowth]
      · rw [hgrowth]
        exact if_pos (by omega)

end Growth

/-- Samples start at the lower end and never go back. -/
structure Climbs (low : UInt32) (samples : ℕ → UInt32) (count : ℕ) : Prop where
  start : Float32.ofBits (samples 0) == Float32.ofBits low
  ascending {index other : ℕ} : index ≤ other → other < count →
    Float32.ofBits (samples index) ≤ Float32.ofBits (samples other)

section Samples

variable {low high : UInt32} {count : ℕ}
  (hspans : Spans (Float32.ofBits low) (Float32.ofBits high)) (hcount : 2 ≤ count)
  (hword : count < 2 ^ 63)

include hspans hcount hword

theorem ofBits_sample {index : ℕ} (hindex : index < count) :
    Float32.ofBits (sample low high count index) =
      coordinate (Float32.ofBits low) (spacing (Float32.ofBits low) (Float32.ofBits high) count)
        index := by
  obtain ⟨a, -, hvalue, -, -⟩ := exists_coordinates hspans hcount hword le_rfl hindex
  have hnumber := Binary32.isNotANumber_of_value hvalue
  unfold Binary32.isNotANumber at hnumber
  rw [sample, coordinateWord, if_neg (by rw [hnumber]; exact Bool.false_ne_true),
    Binary32.ofBits_toBits]

theorem climbs_sample : Climbs low (sample low high count) count where
  start := by
    rw [ofBits_sample hspans hcount hword (by omega)]
    exact coordinate_zero hspans hcount hword
  ascending hle hother := by
    rw [ofBits_sample hspans hcount hword (by omega), ofBits_sample hspans hcount hword hother]
    exact coordinate_mono hspans hcount hword hle hother

theorem last_sample_iff :
    (Float32.ofBits (sample low high count (count - 1)) == Float32.ofBits high) = true ↔
      Lands (Float32.ofBits low) (Float32.ofBits high) count := by
  rw [ofBits_sample hspans hcount hword (by omega), Lands]

theorem last_sample_le_iff :
    Float32.ofBits (sample low high count (count - 1)) ≤ Float32.ofBits high ↔
      Stops (Float32.ofBits low) (Float32.ofBits high) count := by
  rw [ofBits_sample hspans hcount hword (by omega), Stops]

theorem sample_between (hstops : Stops (Float32.ofBits low) (Float32.ofBits high) count)
    {index : ℕ} (hindex : index < count) :
    Float32.ofBits low ≤ Float32.ofBits (sample low high count index) ∧
      Float32.ofBits (sample low high count index) ≤ Float32.ofBits high := by
  rw [ofBits_sample hspans hcount hword hindex]
  exact ⟨low_le_coordinate hspans hcount hword hindex,
    hstops.coordinate_le hspans hcount hword hindex⟩

end Samples

/-- Two positions are the same as numbers, whatever the signs of zeros. -/
def SamePlace (position other : Point) : Prop :=
  (position.toVec.x == other.toVec.x) = true ∧ (position.toVec.y == other.toVec.y) = true

/-- A position lies in a closed rectangle. -/
def Inside (low high position : Point) : Prop :=
  (low.toVec.x ≤ position.toVec.x ∧ position.toVec.x ≤ high.toVec.x) ∧
    low.toVec.y ≤ position.toVec.y ∧ position.toVec.y ≤ high.toVec.y

/-- Positions that sample a rectangle, with one number for each column and each row.  They end at
the upper corner exactly if both axes land, and stay inside exactly if both axes stop. -/
structure Samples (low high : Point) (columns rows : ℕ) (x y : ℕ → UInt32)
    (grid : List Point) : Prop where
  size : grid.length = columns * rows
  place : ∀ column < columns, ∀ row < rows,
    grid[columns * row + column]? = some ⟨x column, y row⟩
  columns_climb : Climbs low.x x columns
  rows_climb : Climbs low.y y rows
  ends_iff : (∃ last, grid.getLast? = some last ∧ SamePlace last high) ↔
    Lands low.toVec.x high.toVec.x columns ∧ Lands low.toVec.y high.toVec.y rows
  inside_iff : (∀ position ∈ grid, Inside low high position) ↔
    Stops low.toVec.x high.toVec.x columns ∧ Stops low.toVec.y high.toVec.y rows
  covers_iff : ((∃ last, grid.getLast? = some last ∧ SamePlace last high) ∧
      ∀ position ∈ grid, Inside low high position) ↔
    Lands low.toVec.x high.toVec.x columns ∧ Lands low.toVec.y high.toVec.y rows

section Rectangle

variable {low high : Point} {columns rows : ℕ} (hcolumns : 2 ≤ columns)
  (hcolumnsWord : columns < 2 ^ 63) (hrows : 2 ≤ rows) (hrowsWord : rows < 2 ^ 63)
  (hx : Spans low.toVec.x high.toVec.x) (hy : Spans low.toVec.y high.toVec.y)

include hcolumns hcolumnsWord hrows hrowsWord hx hy

theorem ends_rowMajor_iff :
    (∃ last, (rowMajor (sample low.x high.x columns) (sample low.y high.y rows) columns
      rows).getLast? = some last ∧ SamePlace last high) ↔
    Lands low.toVec.x high.toVec.x columns ∧ Lands low.toVec.y high.toVec.y rows := by
  have hxLands := last_sample_iff hx hcolumns hcolumnsWord
  have hyLands := last_sample_iff hy hrows hrowsWord
  rw [getLast?_rowMajor _ _ (by omega) (by omega)]
  constructor
  · rintro ⟨_, ⟨⟩, hsame⟩
    exact ⟨hxLands.mp hsame.1, hyLands.mp hsame.2⟩
  · rintro ⟨hxEnd, hyEnd⟩
    exact ⟨_, rfl, hxLands.mpr hxEnd, hyLands.mpr hyEnd⟩

theorem inside_rowMajor_iff :
    (∀ position ∈ rowMajor (sample low.x high.x columns) (sample low.y high.y rows) columns rows,
      Inside low high position) ↔
    Stops low.toVec.x high.toVec.x columns ∧ Stops low.toVec.y high.toVec.y rows := by
  constructor
  · intro hinside
    have hlast := hinside ⟨_, _⟩ ((mem_rowMajor ..).mpr
      ⟨columns - 1, by omega, rows - 1, by omega, rfl⟩)
    exact ⟨(last_sample_le_iff hx hcolumns hcolumnsWord).mp hlast.1.2,
      (last_sample_le_iff hy hrows hrowsWord).mp hlast.2.2⟩
  · rintro ⟨hxStops, hyStops⟩ position hposition
    obtain ⟨column, hcolumn, row, hrow, rfl⟩ := (mem_rowMajor ..).mp hposition
    exact ⟨sample_between hx hcolumns hcolumnsWord hxStops hcolumn,
      sample_between hy hrows hrowsWord hyStops hrow⟩

theorem samples_rowMajor :
    Samples low high columns rows (sample low.x high.x columns) (sample low.y high.y rows)
      (rowMajor (sample low.x high.x columns) (sample low.y high.y rows) columns rows) where
  size := length_rowMajor ..
  place _ hcolumn _ hrow := getElem?_rowMajor _ _ _ _ hcolumn hrow
  columns_climb := climbs_sample hx hcolumns hcolumnsWord
  rows_climb := climbs_sample hy hrows hrowsWord
  ends_iff := ends_rowMajor_iff hcolumns hcolumnsWord hrows hrowsWord hx hy
  inside_iff := inside_rowMajor_iff hcolumns hcolumnsWord hrows hrowsWord hx hy
  covers_iff := by
    rw [ends_rowMajor_iff hcolumns hcolumnsWord hrows hrowsWord hx hy,
      inside_rowMajor_iff hcolumns hcolumnsWord hrows hrowsWord hx hy, and_iff_left_iff_imp]
    rintro ⟨hxLands, hyLands⟩
    exact ⟨hxLands.stops hx hcolumns hcolumnsWord, hyLands.stops hy hrows hrowsWord⟩

end Rectangle

/-- A grid that fits the longest buffer keeps what is in front of it and samples its rectangle;
another one is refused.  An axis lands if nothing of it is rounded. -/
theorem append_covers_iff_lands (before : List Point) (low high : Point) (columns rows : ℕ)
    (hcolumns : 2 ≤ columns) (hcolumnsWord : columns < 2 ^ 63) (hrows : 2 ≤ rows)
    (hrowsWord : rows < 2 ^ 63) (hx : Spans low.toVec.x high.toVec.x)
    (hy : Spans low.toVec.y high.toVec.y) :
    (before.length + columns * rows ≤ 2 ^ 45 →
      ∃ x y grid, append before low high columns rows = .ok (before ++ grid) ∧
        Samples low high columns rows x y grid) ∧
    (2 ^ 45 < before.length + columns * rows →
      append before low high columns rows = .error
        (if columns * rows % 2 ^ 64 < 2 ^ 63 then .longBuffer else .negativeGrowth)) ∧
    (Exact low.toVec.x high.toVec.x columns → Lands low.toVec.x high.toVec.x columns) ∧
    (Exact low.toVec.y high.toVec.y rows → Lands low.toVec.y high.toVec.y rows) := by
  have happend := @append_eq columns rows before (by omega) (by omega)
  refine ⟨fun hroom => ?_, fun hlong => ?_, fun hexact => hexact.lands hcolumns,
    fun hexact => hexact.lands hrows⟩
  · refine ⟨_, _, _, ?_, samples_rowMajor hcolumns hcolumnsWord hrows hrowsWord hx hy⟩
    rw [happend, if_pos hroom, positions_eq]
  · rw [happend, if_neg (by omega)]

/-- Three samples from 0 to 2 on either axis, behind another position. -/
theorem append_covers_iff_lands_exact :
    Exact (Float32.ofBits 0) (Float32.ofBits 0x40000000) 3 ∧ ∃ x y grid,
      append [⟨0x7f800000, 0⟩] ⟨0, 0⟩ ⟨0x40000000, 0x40000000⟩ 3 3 =
        .ok ([⟨0x7f800000, 0⟩] ++ grid) ∧
      Samples ⟨0, 0⟩ ⟨0x40000000, 0x40000000⟩ 3 3 x y grid ∧
      Lands (Float32.ofBits 0) (Float32.ofBits 0x40000000) 3 := by
  have hspans : Spans (Float32.ofBits 0) (Float32.ofBits 0x40000000) :=
    ⟨by decide, by decide, by decide, by decide +kernel⟩
  have hparts : Binary32.parts (Float32.ofBits 0x40000000) = .finite false (2 ^ 23) (-22) := by
    decide
  have htwo : IsRational (Float32.ofBits 0x40000000) 2 := by
    convert Binary32.isRational_of_parts hparts using 1
    norm_num
  have hdifference :
      Float32.ofBits 0x40000000 - Float32.ofBits 0 = Float32.ofBits 0x40000000 := by
    decide +kernel
  have hspacing : spacing (Float32.ofBits 0) (Float32.ofBits 0x40000000) 3 = 1 := by
    decide +kernel
  have hexact : Exact (Float32.ofBits 0) (Float32.ofBits 0x40000000) 3 := by
    refine ⟨by norm_num, 0, 2, isRational_of_isZero rfl, htwo, ?_, ?_⟩
    · rwa [hdifference, sub_zero]
    · rw [hspacing]
      norm_num
      exact isRational_one
  obtain ⟨hfits, -, hlands, -⟩ :=
    append_covers_iff_lands [⟨0x7f800000, 0⟩] ⟨0, 0⟩ ⟨0x40000000, 0x40000000⟩ 3 3
      (by norm_num) (by norm_num) (by norm_num) (by norm_num) hspans hspans
  obtain ⟨x, y, grid, happend, hsamples⟩ := hfits (by norm_num)
  exact ⟨hexact, x, y, grid, happend, hsamples, hlands hexact⟩

/-- From -1 to 0.1 the second of two samples is greater than 0.1. -/
theorem append_passes_upper_corner :
    ∃ grid last,
      append [] ⟨0xbf800000, 0xbf800000⟩ ⟨0x3dcccccd, 0x3dcccccd⟩ 2 2 = .ok grid ∧
      grid.getLast? = some last ∧ ¬ SamePlace last ⟨0x3dcccccd, 0x3dcccccd⟩ ∧
      ¬ Inside ⟨0xbf800000, 0xbf800000⟩ ⟨0x3dcccccd, 0x3dcccccd⟩ last := by
  refine ⟨_, ⟨0x3dccccd0, 0x3dccccd0⟩, rfl, ?_, ?_, ?_⟩
  · decide +kernel
  · unfold SamePlace
    decide +kernel
  · unfold Inside
    decide +kernel

end NoiseShader.Grid
