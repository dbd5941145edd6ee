import NoiseShader.Noise.Cellular
import NoiseShader.Proofs.Number.Order
import Mathlib.Tactic

/-!
# The two nearest feature points

Cellular noise finds the two least of nine distances with minima, maxima and
conditional exchanges.  Each of these takes two numbers to the lesser and the
greater one, and a number that is not kept is the greater one of such a pair; so
nothing is lost but numbers above the second least.

The numbers are counted as often as they occur and compared by their values, among
them the infinities and zeros of either sign.
-/

namespace NoiseShader.Noise

open Number (Extended)
open Number.Binary32 (value? isNotANumber value?_minimum value?_maximum lt_iff_value
  value?_eq_none_iff)

section Network

variable {α : Type} [LinearOrder α]

/-- The least and the second least of some numbers, counted as often as they occur. -/
def AreLeast (numbers : List α) (first second : α) : Prop :=
  ∃ rest, numbers.Perm (first :: second :: rest) ∧ first ≤ second ∧ ∀ other ∈ rest, second ≤ other

theorem AreLeast.eq_iff {numbers : List α} {first second : α}
    (hleast : AreLeast numbers first second) :
    first = second ↔ 2 ≤ numbers.count first := by
  obtain ⟨rest, hperm, hle, hrest⟩ := hleast
  rw [hperm.count_eq, List.count_cons_self]
  constructor
  · intro heq
    rw [← heq, List.count_cons_self]
    omega
  · intro htwice
    by_contra hne
    have hlt : first < second := lt_of_le_of_ne hle hne
    have hnone : rest.count first = 0 := by
      apply List.count_eq_zero_of_not_mem
      intro hmem
      exact absurd (hrest first hmem) (not_le.mpr hlt)
    rw [List.count_cons_of_ne hlt.ne', hnone] at htwice
    omega

theorem AreLeast.of_perm {numbers others : List α} {first second : α}
    (hleast : AreLeast others first second) (hperm : numbers.Perm others) :
    AreLeast numbers first second := by
  obtain ⟨rest, hothers, hle, hrest⟩ := hleast
  exact ⟨rest, hperm.trans hothers, hle, hrest⟩

/-- Two lists hold the same numbers if no weight tells them apart that an exchange keeps. -/
theorem perm_of_exchanges {numbers others : List α}
    (hsum : ∀ weight : α → ℕ,
      (∀ a b, weight (min a b) + weight (max a b) = weight a + weight b) →
        (numbers.map weight).sum = (others.map weight).sum) : numbers.Perm others := by
  have hcount : ∀ (list : List α) (v : α),
      (list.map fun a => if a = v then 1 else 0).sum = list.count v := by
    intro list v
    induction list with
    | nil => rfl
    | cons a rest ih => simp [ih, List.count_cons, Nat.add_comm]
  rw [List.perm_iff_count]
  intro v
  rw [← hcount, ← hcount]
  apply hsum
  intro a b
  rcases le_total a b with h | h
  · rw [min_eq_left h, max_eq_right h]
  · rw [min_eq_right h, max_eq_left h, Nat.add_comm]

/-- Three exchanges put the numbers of a column in order. -/
theorem column_sorted (a b c : α) :
    [a, b, c].Perm [min (min a b) (min (max a b) c), max (min a b) (min (max a b) c),
        max (max a b) c] ∧
      max (min a b) (min (max a b) c) ≤ max (max a b) c := by
  constructor
  · apply perm_of_exchanges
    intro weight hweight
    have hfirst := hweight a b
    have hsecond := hweight (max a b) c
    have hthird := hweight (min a b) (min (max a b) c)
    simp only [List.map_cons, List.map_nil, List.sum_cons, List.sum_nil]
    omega
  · order

/-- What the exchanges between ordered columns select. -/
theorem areLeast_of_columns (low high top : Vec3 α) (hx : low.x ≤ high.x) (hy : low.y ≤ high.y)
    (hz : low.z ≤ high.z) (hx' : high.x ≤ top.x) (hy' : high.y ≤ top.y) (hz' : high.z ≤ top.z) :
    AreLeast [low.x, high.x, top.x, low.y, high.y, top.y, low.z, high.z, top.z]
      (min (min low.x low.y) low.z)
      (min (min (min (max low.x low.y) high.y) (min (max (min low.x low.y) low.z) high.z))
        high.x) := by
  let middle := max low.x low.y
  let last := max (min low.x low.y) low.z
  let left := min middle high.y
  let right := min last high.z
  have hleft : min (min left right) high.x ≤ left := (min_le_left _ _).trans (min_le_left _ _)
  have hright : min (min left right) high.x ≤ right := (min_le_left _ _).trans (min_le_right _ _)
  have hhigh : min (min left right) high.x ≤ high.x := min_le_right _ _
  refine ⟨[max middle high.y, max last high.z, max left right, max (min left right) high.x,
    top.x, top.y, top.z], ?_, ?_, ?_⟩
  · apply perm_of_exchanges
    intro weight hweight
    have hlow := hweight low.x low.y
    have hlow' := hweight (min low.x low.y) low.z
    have hmiddle := hweight middle high.y
    have hlast := hweight last high.z
    have hsides := hweight left right
    have hall := hweight (min left right) high.x
    simp only [List.map_cons, List.map_nil, List.sum_cons, List.sum_nil, middle, last, left,
      right] at *
    omega
  · apply le_min
    · apply le_min
      · exact le_min ((min_le_left _ _).trans min_le_max)
          (((min_le_left _ _).trans (min_le_right _ _)).trans hy)
      · exact le_min min_le_max ((min_le_right _ _).trans hz)
    · exact ((min_le_left _ _).trans (min_le_left _ _)).trans hx
  · simp only [List.mem_cons, List.not_mem_nil, or_false, forall_eq_or_imp, forall_eq]
    exact ⟨(hleft.trans (min_le_left _ _)).trans (le_max_left _ _),
      (hright.trans (min_le_left _ _)).trans (le_max_left _ _), hleft.trans (le_max_left _ _),
      hhigh.trans (le_max_right _ _), hhigh.trans hx',
      (hleft.trans (min_le_right _ _)).trans hy', (hright.trans (min_le_right _ _)).trans hz'⟩

end Network

/-! ## Values of vectors -/

/-- A vector of numbers with their values. -/
structure HasValues (v : Vec3 Float32) (a : Vec3 Extended) : Prop where
  x : value? v.x = some a.x
  y : value? v.y = some a.y
  z : value? v.z = some a.z

namespace HasValues

variable {v w : Vec3 Float32} {a b : Vec3 Extended}

theorem minimum (hv : HasValues v a) (hw : HasValues w b) :
    HasValues (Vec.minimum v w) ⟨min a.x b.x, min a.y b.y, min a.z b.z⟩ :=
  ⟨value?_minimum hv.x hw.x, value?_minimum hv.y hw.y, value?_minimum hv.z hw.z⟩

theorem maximum (hv : HasValues v a) (hw : HasValues w b) :
    HasValues (Vec.maximum v w) ⟨max a.x b.x, max a.y b.y, max a.z b.z⟩ :=
  ⟨value?_maximum hv.x hw.x, value?_maximum hv.y hw.y, value?_maximum hv.z hw.z⟩

theorem exchangeY (hv : HasValues v a) :
    HasValues (if v.x < v.y then v else ⟨v.y, v.x, v.z⟩)
      ⟨min a.x a.y, max a.x a.y, a.z⟩ := by
  have hlt := lt_iff_value hv.x hv.y
  split_ifs with h
  · have hle := (hlt.mp h).le
    rw [min_eq_left hle, max_eq_right hle]
    exact hv
  · have hle := not_lt.mp (mt hlt.mpr h)
    rw [min_eq_right hle, max_eq_left hle]
    exact ⟨hv.y, hv.x, hv.z⟩

theorem exchangeZ (hv : HasValues v a) :
    HasValues (if v.x < v.z then v else ⟨v.z, v.y, v.x⟩)
      ⟨min a.x a.z, a.y, max a.x a.z⟩ := by
  have hlt := lt_iff_value hv.x hv.z
  split_ifs with h
  · have hle := (hlt.mp h).le
    rw [min_eq_left hle, max_eq_right hle]
    exact hv
  · have hle := not_lt.mp (mt hlt.mpr h)
    rw [min_eq_right hle, max_eq_left hle]
    exact ⟨hv.z, hv.y, hv.x⟩

theorem exists_of_numbers (hv : ∀ d ∈ Components.toList v, isNotANumber d = false) :
    ∃ a, HasValues v a := by
  have hvalue : ∀ d ∈ Components.toList v, ∃ value, value? d = some value := by
    intro d hd
    rw [← Option.ne_none_iff_exists', ne_eq, value?_eq_none_iff, hv d hd]
    exact Bool.false_ne_true
  obtain ⟨x, hx⟩ := hvalue v.x (by simp [Components.toList])
  obtain ⟨y, hy⟩ := hvalue v.y (by simp [Components.toList])
  obtain ⟨z, hz⟩ := hvalue v.z (by simp [Components.toList])
  exact ⟨⟨x, y, z⟩, hx, hy, hz⟩

theorem map_value?_toList (hv : HasValues v a) :
    (Components.toList v).map value? = (Components.toList a).map some := by
  simp [Components.toList, hv.x, hv.y, hv.z]

end HasValues

/-! ## Selecting distances -/

def candidates {α : Type} (d1 d2 d3 : Vec3 α) : List α :=
  Components.toList d1 ++ Components.toList d2 ++ Components.toList d3

theorem candidates_perm {α : Type} (d1 d2 d3 : Vec3 α) :
    (candidates d1 d2 d3).Perm
      ([d1.x, d2.x, d3.x] ++ [d1.y, d2.y, d3.y] ++ [d1.z, d2.z, d3.z]) := by
  classical
  rw [List.perm_iff_count]
  intro v
  simp only [candidates, Components.toList, List.count_append, List.count_cons, List.count_nil]
  omega

theorem twoSmallest_areLeast {d1 d2 d3 : Vec3 Float32} {a b c : Vec3 Extended}
    (ha : HasValues d1 a) (hb : HasValues d2 b) (hc : HasValues d3 c) :
    ∃ first second, value? (twoSmallest d1 d2 d3).x = some first ∧
      value? (twoSmallest d1 d2 d3).y = some second ∧
        AreLeast (candidates a b c) first second := by
  have hlow := (ha.minimum hb).minimum ((ha.maximum hb).minimum hc)
  have hhigh := (ha.minimum hb).maximum ((ha.maximum hb).minimum hc)
  have hexchanged := hlow.exchangeY.exchangeZ
  have hcandidates := value?_minimum (value?_minimum (value?_minimum hexchanged.y hhigh.y)
    (value?_minimum hexchanged.z hhigh.z)) hhigh.x
  refine ⟨_, _, hexchanged.x, hcandidates, ?_⟩
  obtain ⟨hpermX, hx⟩ := column_sorted a.x b.x c.x
  obtain ⟨hpermY, hy⟩ := column_sorted a.y b.y c.y
  obtain ⟨hpermZ, hz⟩ := column_sorted a.z b.z c.z
  have hleast := areLeast_of_columns ⟨_, _, _⟩ ⟨_, _, _⟩ ⟨_, _, _⟩ min_le_max min_le_max
    min_le_max hx hy hz
  exact hleast.of_perm ((candidates_perm a b c).trans ((hpermX.append hpermY).append hpermZ))

/-- The squared distances from a position to the feature points of the three columns of cells
around it. -/
def columnDistances (p : Vec2 Float32) : Vec3 (Vec3 Float32) :=
  let cell := mod289 (Vec.floor p)
  let columns := permute (Vec.addScalar cellularNeighbours cell.x)
  ⟨cellularColumn (columns.x + cell.y) (Vec.fraction p) 0.5,
    cellularColumn (columns.y + cell.y) (Vec.fraction p) (-0.5),
    cellularColumn (columns.z + cell.y) (Vec.fraction p) (-1.5)⟩

def distances (p : Vec2 Float32) : List Float32 :=
  candidates (columnDistances p).x (columnDistances p).y (columnDistances p).z

/-- A pair with the least and the second least value of some numbers. -/
def TwoLeast (numbers : List Float32) (pair : Vec2 Float32) : Prop :=
  ∃ values first second, numbers.map value? = values.map some ∧
    value? pair.x = some first ∧ value? pair.y = some second ∧
      AreLeast values first second ∧ (first = second ↔ 2 ≤ values.count first)

theorem cellular_eq (p : Vec2 Float32) :
    cellular p = Vec.sqrt (twoSmallest (columnDistances p).x (columnDistances p).y
      (columnDistances p).z) := rfl

theorem twoSmallest_twoLeast {d1 d2 d3 : Vec3 Float32}
    (hnumbers : ∀ d ∈ candidates d1 d2 d3, isNotANumber d = false) :
    TwoLeast (candidates d1 d2 d3) (twoSmallest d1 d2 d3) := by
  simp only [candidates, List.forall_mem_append] at hnumbers
  obtain ⟨a, ha⟩ := HasValues.exists_of_numbers hnumbers.1.1
  obtain ⟨b, hb⟩ := HasValues.exists_of_numbers hnumbers.1.2
  obtain ⟨c, hc⟩ := HasValues.exists_of_numbers hnumbers.2
  obtain ⟨first, second, hfirst, hsecond, hleast⟩ := twoSmallest_areLeast ha hb hc
  refine ⟨candidates a b c, first, second, ?_, hfirst, hsecond, hleast, hleast.eq_iff⟩
  simp only [candidates, List.map_append, ha.map_value?_toList, hb.map_value?_toList,
    hc.map_value?_toList]

/-- The selection finds the two least of any nine numbers, and the noise is the square roots of the
two least distances. -/
theorem cellular_selects_twoLeast :
    (∀ d1 d2 d3 : Vec3 Float32, (∀ d ∈ candidates d1 d2 d3, isNotANumber d = false) →
      TwoLeast (candidates d1 d2 d3) (twoSmallest d1 d2 d3)) ∧
    ∀ p : Vec2 Float32, (∀ d ∈ distances p, isNotANumber d = false) →
      ∃ pair : Vec2 Float32, cellular p = ⟨pair.x.sqrt, pair.y.sqrt⟩ ∧
        TwoLeast (distances p) pair := by
  constructor
  · intro d1 d2 d3 hnumbers
    exact twoSmallest_twoLeast hnumbers
  · intro p hnumbers
    exact ⟨_, cellular_eq p, twoSmallest_twoLeast hnumbers⟩

/-- Two infinities, zeros of either sign and a repeated least number. -/
def mixedColumns : Vec3 (Vec3 Float32) :=
  ⟨⟨1 / 0, 0, 2⟩, ⟨1, -0, 3⟩, ⟨5, 1 / 0, 0⟩⟩

set_option maxRecDepth 20000 in
theorem cellular_selects_twoLeast_mixed :
    (∀ d ∈ candidates mixedColumns.x mixedColumns.y mixedColumns.z, isNotANumber d = false) ∧
      TwoLeast (candidates mixedColumns.x mixedColumns.y mixedColumns.z) ⟨0, -0⟩ ∧
      (∀ d ∈ distances ⟨0.25, 0.75⟩, isNotANumber d = false) ∧
      ∃ pair : Vec2 Float32, cellular ⟨0.25, 0.75⟩ = ⟨pair.x.sqrt, pair.y.sqrt⟩ ∧
        TwoLeast (distances ⟨0.25, 0.75⟩) pair := by
  have hmixed : ∀ d ∈ candidates mixedColumns.x mixedColumns.y mixedColumns.z,
      isNotANumber d = false := by decide
  have hpair : twoSmallest mixedColumns.x mixedColumns.y mixedColumns.z = ⟨0, -0⟩ := by decide
  have hdistances : ∀ d ∈ distances ⟨0.25, 0.75⟩, isNotANumber d = false := by decide
  have hleast := cellular_selects_twoLeast.1 _ _ _ hmixed
  rw [hpair] at hleast
  exact ⟨hmixed, hleast, hdistances, cellular_selects_twoLeast.2 _ hdistances⟩

end NoiseShader.Noise
