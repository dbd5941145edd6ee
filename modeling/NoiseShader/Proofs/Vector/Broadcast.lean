import NoiseShader.Proofs.Number.Extremum
import NoiseShader.Proofs.Vector.Components
import Mathlib.Tactic

/-!
# Numbers against vectors

A number is taken against a vector by taking it against every component, which is
to take the vector against the one with that number everywhere.  Sums, differences,
products, quotients and mixtures keep to this.  Minima and maxima do not: against a
number, and for vectors of four components, they only compare, and for fewer
components they look at signs and at what is not a number as well.
-/

namespace NoiseShader.Vec

open Components (toList)
open LawfulComponents (toList_map toList_zipWith zipWith_replicate replicate_zipWith
  map_eq_map_iff eq_of_toList)
open Number.Binary32 (Misses lesser_eq_minimum_iff greater_eq_maximum_iff notANumber)

/-! ## Acting on components -/

/-- An operation on vectors of all sizes that takes every component by itself. -/
def ActsOnEach (operation : {V : Type → Type} → [Components V] → V Float32 → V Float32)
    (f : Float32 → Float32) : Prop :=
  ∀ {V : Type → Type} [Components V] [LawfulComponents V] (v : V Float32),
    toList (operation v) = (toList v).map f

/-- An operation on two vectors that takes the components in the same place together. -/
def ActsOnPairs
    (operation : {V : Type → Type} → [Components V] → V Float32 → V Float32 → V Float32)
    (f : Float32 → Float32 → Float32) : Prop :=
  ∀ {V : Type → Type} [Components V] [LawfulComponents V] (v w : V Float32),
    toList (operation v w) = List.zipWith f (toList v) (toList w)

section Laws

variable {V : Type → Type} [Components V]

/-- One function for the components of small vectors, and another for those of larger ones. -/
def bySize (few many : Float32 → Float32 → Float32) (v w : V Float32) : V Float32 :=
  if Components.arity V ≤ 3 then Components.zipWith few v w else Components.zipWith many v w

theorem minimum_eq_bySize (v w : V Float32) :
    minimum v w = bySize Number.Binary32.minimum Number.Binary32.lesser v w := rfl

theorem maximum_eq_bySize (v w : V Float32) :
    maximum v w = bySize Number.Binary32.maximum Number.Binary32.greater v w := rfl

variable [LawfulComponents V]

theorem toList_mix (v w weight : V Float32) :
    toList (mix v w weight) =
      List.zipWith3 Number.Binary32.mix (toList v) (toList w) (toList weight) := by
  rw [mix, add, mul, toList_zipWith, toList_zipWith, toList_zipWith]
  generalize toList v = xs
  generalize toList w = ys
  generalize toList weight = ws
  induction xs generalizing ys ws with
  | nil => rfl
  | cons x xs ih =>
      cases ys with
      | nil => cases ws <;> rfl
      | cons y ys =>
          cases ws with
          | nil => rfl
          | cons w ws => exact congrArg (Number.Binary32.mix x y w :: ·) (ih ys ws)

theorem mixScalar_eq_mix_splat (v w : V Float32) (c : Float32) :
    mixScalar v w c = mix v w (splat c) := by
  apply eq_of_toList
  rw [mixScalar, mix, splat, add, mul, zipWith_replicate, zipWith_replicate, toList_zipWith,
    toList_zipWith, toList_map, toList_map, List.zipWith_map]
  rfl

variable {few many : Float32 → Float32 → Float32}

theorem toList_bySize (v w : V Float32) :
    toList (bySize few many v w) =
      List.zipWith (if Components.arity V ≤ 3 then few else many) (toList v) (toList w) := by
  unfold bySize
  split_ifs
  · exact toList_zipWith few v w
  · exact toList_zipWith many v w

theorem map_eq_bySize_iff (v : V Float32) (c : Float32) :
    Components.map (many · c) v = bySize few many v (splat c) ↔
      Components.arity V ≤ 3 → ∀ x ∈ toList v, many x c = few x c := by
  unfold bySize splat
  split_ifs with hsize
  · simp only [zipWith_replicate, map_eq_map_iff, hsize, true_imp_iff]
  · simp only [zipWith_replicate, hsize, false_imp_iff]

end Laws

/-- Two functions that differ somewhere are not one function for all sizes. -/
theorem not_actsOnPairs_bySize {few many : Float32 → Float32 → Float32} {x y : Float32}
    (hdiffer : few x y ≠ many x y) : ¬ ∃ f, ActsOnPairs (bySize few many) f := by
  rintro ⟨f, hacts⟩
  have hfew := hacts (splat x : Vec2 Float32) (splat y)
  have hmany := hacts (splat x : Vec4 Float32) (splat y)
  rw [toList_bySize] at hfew hmany
  have htwo : few x y = f x y := (List.cons.inj hfew).1
  have hfour : many x y = f x y := (List.cons.inj hmany).1
  exact hdiffer (htwo.trans hfour.symm)

/-- Taking a number against a vector is taking the vector with that number everywhere, but for
minima and maxima of up to three components, where it is so exactly if comparing finds the same
extremum for every component.  All other operations act on components by a function that does not
depend on their number. -/
theorem scalars_broadcast_but_for_extrema {V : Type → Type} [Components V] [LawfulComponents V]
    (v w weight : V Float32) (c : Float32) :
    (addScalar v c = add v (splat c) ∧ subScalar v c = sub v (splat c) ∧
      scalarSub c v = sub (splat c) v ∧ mulScalar v c = mul v (splat c) ∧
      divScalar v c = div v (splat c) ∧ mixScalar v w c = mix v w (splat c) ∧
      (minimumScalar v c = minimum v (splat c) ↔
        Components.arity V ≤ 3 → ∀ x ∈ toList v, ¬ Misses true x c) ∧
      (maximumScalar v c = maximum v (splat c) ↔
        Components.arity V ≤ 3 → ∀ x ∈ toList v, ¬ Misses false x c)) ∧
    (ActsOnPairs add (· + ·) ∧ ActsOnPairs sub (· - ·) ∧ ActsOnPairs mul (· * ·) ∧
      ActsOnPairs div (· / ·) ∧ ActsOnPairs step Number.Binary32.step) ∧
    (ActsOnEach floor Number.Binary32.floor ∧ ActsOnEach fraction Number.Binary32.fraction ∧
      ActsOnEach sqrt Float32.sqrt ∧ ActsOnEach abs Float32.abs) ∧
    (ActsOnEach (addScalar · c) (· + c) ∧ ActsOnEach (subScalar · c) (· - c) ∧
      ActsOnEach (scalarSub c ·) (c - ·) ∧ ActsOnEach (mulScalar · c) (· * c) ∧
      ActsOnEach (divScalar · c) (· / c) ∧
      ActsOnEach (minimumScalar · c) (Number.Binary32.lesser · c) ∧
      ActsOnEach (maximumScalar · c) (Number.Binary32.greater · c) ∧
      ActsOnEach (modulo · c) (Number.Binary32.modulo · c) ∧
      ActsOnPairs (mixScalar · · c) (Number.Binary32.mix · · c)) ∧
    (toList (mix v w weight) =
        List.zipWith3 Number.Binary32.mix (toList v) (toList w) (toList weight) ∧
      toList (minimum v w) = List.zipWith (if Components.arity V ≤ 3 then Number.Binary32.minimum
        else Number.Binary32.lesser) (toList v) (toList w) ∧
      toList (maximum v w) = List.zipWith (if Components.arity V ≤ 3 then Number.Binary32.maximum
        else Number.Binary32.greater) (toList v) (toList w)) ∧
    (¬ ∃ f, ActsOnPairs minimum f) ∧ ¬ ∃ f, ActsOnPairs maximum f := by
  simp only [minimum_eq_bySize, maximum_eq_bySize, ← lesser_eq_minimum_iff,
    ← greater_eq_maximum_iff]
  refine ⟨⟨?_, ?_, ?_, ?_, ?_, ?_, ?_, ?_⟩, ?_, ?_, ?_, ?_, ?_, ?_⟩
  · exact (zipWith_replicate (· + ·) v c).symm
  · exact (zipWith_replicate (· - ·) v c).symm
  · exact (replicate_zipWith (· - ·) c v).symm
  · exact (zipWith_replicate (· * ·) v c).symm
  · exact (zipWith_replicate (· / ·) v c).symm
  · exact mixScalar_eq_mix_splat v w c
  · exact map_eq_bySize_iff v c
  · exact map_eq_bySize_iff v c
  · exact ⟨toList_zipWith _, toList_zipWith _, toList_zipWith _, toList_zipWith _,
      toList_zipWith _⟩
  · exact ⟨toList_map _, toList_map _, toList_map _, toList_map _⟩
  · exact ⟨toList_map _, toList_map _, toList_map _, toList_map _, toList_map _, toList_map _,
      toList_map _, toList_map _, toList_zipWith _⟩
  · exact ⟨toList_mix v w weight, toList_bySize v w, toList_bySize v w⟩
  · -- The lesser of two zeros is the first one, and their minimum the negative one.
    exact @not_actsOnPairs_bySize _ _ 0 (-0) (by decide)
  · exact @not_actsOnPairs_bySize _ _ (-0) 0 (by decide)

theorem scalars_broadcast_but_for_extrema_zeros :
    minimumScalar (⟨-0, 1, notANumber⟩ : Vec3 Float32) (-0) =
        minimum ⟨-0, 1, notANumber⟩ (splat (-0)) ∧
      minimumScalar (⟨0, 1, notANumber⟩ : Vec3 Float32) (-0) ≠
        minimum ⟨0, 1, notANumber⟩ (splat (-0)) ∧
      minimumScalar (⟨0, 1, notANumber, 0⟩ : Vec4 Float32) (-0) =
        minimum ⟨0, 1, notANumber, 0⟩ (splat (-0)) := by
  obtain ⟨⟨-, -, -, -, -, -, hsame, -⟩, -⟩ := scalars_broadcast_but_for_extrema
    (⟨-0, 1, notANumber⟩ : Vec3 Float32) (splat 0) (splat 0) (-0)
  obtain ⟨⟨-, -, -, -, -, -, hother, -⟩, -⟩ := scalars_broadcast_but_for_extrema
    (⟨0, 1, notANumber⟩ : Vec3 Float32) (splat 0) (splat 0) (-0)
  obtain ⟨⟨-, -, -, -, -, -, hfour, -⟩, -⟩ := scalars_broadcast_but_for_extrema
    (⟨0, 1, notANumber, 0⟩ : Vec4 Float32) (splat 0) (splat 0) (-0)
  exact ⟨hsame.mpr (by decide), fun heq => absurd (hother.mp heq) (by decide),
    hfour.mpr (by decide)⟩

/-- What is not a number is lost against two components, and passed on as a vector. -/
theorem minimumScalar_ne_minimum_splat :
    minimumScalar (⟨0, 1⟩ : Vec2 Float32) notANumber = ⟨0, 1⟩ ∧
      minimum (⟨0, 1⟩ : Vec2 Float32) (splat notANumber) = ⟨notANumber, notANumber⟩ ∧
      minimumScalar (⟨0, 1⟩ : Vec2 Float32) notANumber ≠ minimum ⟨0, 1⟩ (splat notANumber) := by
  decide

end NoiseShader.Vec
