import NoiseShader.Noise.Gradient
import Mathlib.Analysis.Calculus.Deriv.Add
import Mathlib.Analysis.Calculus.Deriv.Mul
import Mathlib.Analysis.Calculus.Deriv.Pow
import Mathlib.Analysis.Calculus.Deriv.Shift
import Mathlib.Tactic
import Mathlib.Topology.Algebra.Module.ModuleTopology

/-!
# Exact gradient noise

Over exact numbers gradient noise is a polynomial in every cell of the lattice,
and the derivatives beside its value are those of that polynomial.  Along an edge
the weights of the far corners vanish together with their derivatives, so two
cells agree there in the value and in both derivatives, whatever gradients the
lattice points carry.

Exchanging the axes takes the noise to itself; what is shown along one axis holds
along the other.
-/

namespace NoiseShader.Noise

open Vec

section Cell

variable {α : Type} [Add α] [Sub α] [Mul α]
  [OfNat α 0] [OfNat α 1] [OfNat α 2] [OfNat α 3] [OfNat α 6]

/-- The noise at an offset into the cell above and to the right of a lattice point, for any
gradients of the lattice points. -/
def cellNoise (gradients : Vec2 α → Vec2 α) (cell offset : Vec2 α) : Vec3 α :=
  blendCorners
    { a := gradients cell
      b := gradients (add cell ⟨1, 0⟩)
      c := gradients (add cell ⟨0, 1⟩)
      d := gradients (add cell ⟨1, 1⟩) }
    offset

end Cell

theorem gradient_eq_cellNoise (p : Vec2 Float32) :
    gradient p = cellNoise latticeGradient (floor p) (fraction p) := rfl

/-- A position or gradient with the axes exchanged. -/
def transposed {α : Type} (v : Vec2 α) : Vec2 α := ⟨v.y, v.x⟩

/-- A value whose two derivatives are exchanged. -/
def mirrored {α : Type} (v : Vec3 α) : Vec3 α := ⟨v.x, v.z, v.y⟩

/-- The gradients of the lattice with the axes exchanged. -/
def turned {α : Type} (gradients : Vec2 α → Vec2 α) (p : Vec2 α) : Vec2 α :=
  transposed (gradients (transposed p))

section Exact

variable {𝕜 : Type} [NontriviallyNormedField 𝕜]

def weight (t : 𝕜) : 𝕜 := t * t * (3 - t * 2)

def slope (t : 𝕜) : 𝕜 := t * 6 * (1 - t)

theorem hasDerivAt_weight (t : 𝕜) : HasDerivAt weight (slope t) t := by
  have hsquare := (hasDerivAt_id' t).mul (hasDerivAt_id' t)
  have hlinear := ((hasDerivAt_id' t).mul_const 2).const_sub 3
  apply (hsquare.mul hlinear).congr_deriv
  simp only [Pi.mul_apply, slope]
  ring

/-- The linear function of a gradient that vanishes at a corner. -/
def ramp (g corner f : Vec2 𝕜) : 𝕜 := g.x * (f.x - corner.x) + g.y * (f.y - corner.y)

theorem hasDerivAt_ramp (g corner : Vec2 𝕜) (s t : 𝕜) :
    HasDerivAt (fun t => ramp g corner ⟨t, s⟩) g.x t := by
  have hleft := (((hasDerivAt_id' t).sub_const corner.x).const_mul g.x).add_const
    (g.y * (s - corner.y))
  exact hleft.congr_deriv (mul_one g.x)

/-- The blend of four numbers with weights for the two axes. -/
def mixed (a b c d u v : 𝕜) : 𝕜 := a + u * (b - a) + v * (c - a) + u * v * (a - b - c + d)

theorem hasDerivAt_mixed {a b c d u : 𝕜 → 𝕜} {a' b' c' d' u' t : 𝕜} (v : 𝕜)
    (ha : HasDerivAt a a' t) (hb : HasDerivAt b b' t) (hc : HasDerivAt c c' t)
    (hd : HasDerivAt d d' t) (hu : HasDerivAt u u' t) :
    HasDerivAt (fun t => mixed (a t) (b t) (c t) (d t) (u t) v)
      (mixed a' b' c' d' (u t) v + u' * (b t - a t + v * (a t - b t - c t + d t))) t := by
  have hright := hu.mul (hb.sub ha)
  have habove := (hc.sub ha).const_mul v
  have hcross := (hu.mul_const v).mul (((ha.sub hb).sub hc).add hd)
  apply (((ha.add hright).add habove).add hcross).congr_deriv
  unfold mixed
  simp only [Pi.add_apply, Pi.sub_apply]
  ring

theorem blendCorners_eq (g : Corners 𝕜) (f : Vec2 𝕜) :
    blendCorners g f =
      let u := weight f.x
      let v := weight f.y
      let a := ramp g.a ⟨0, 0⟩ f
      let b := ramp g.b ⟨1, 0⟩ f
      let c := ramp g.c ⟨0, 1⟩ f
      let d := ramp g.d ⟨1, 1⟩ f
      ⟨mixed a b c d u v,
        mixed g.a.x g.b.x g.c.x g.d.x u v + slope f.x * (b - a + v * (a - b - c + d)),
        mixed g.a.y g.b.y g.c.y g.d.y u v + slope f.y * (c - a + u * (a - b - c + d))⟩ := by
  simp only [blendCorners, Vec.add, Vec.sub, Vec.mul, dot, scalarSub, mulScalar, subScalar,
    Components.map, Components.zipWith, Components.reduce, weight, slope, ramp, mixed,
    Vec3.mk.injEq]
  refine ⟨?_, ?_, ?_⟩ <;> ring

variable (gradients : Vec2 𝕜 → Vec2 𝕜) (cell : Vec2 𝕜)

theorem cellNoise_eq_mirrored (f : Vec2 𝕜) :
    cellNoise gradients cell f =
      mirrored (cellNoise (turned gradients) (transposed cell) (transposed f)) := by
  simp only [cellNoise, blendCorners_eq, turned, transposed, mirrored, ramp, mixed, Vec.add,
    Components.zipWith, Vec3.mk.injEq]
  refine ⟨?_, ?_, ?_⟩ <;> ring

/-! ## Derivatives in a cell -/

theorem hasDerivAt_cellNoise_x (f : Vec2 𝕜) :
    HasDerivAt (fun t => (cellNoise gradients cell ⟨t, f.y⟩).x) (cellNoise gradients cell f).y
      f.x := by
  simp only [cellNoise, blendCorners_eq]
  exact hasDerivAt_mixed (weight f.y) (hasDerivAt_ramp _ _ f.y f.x) (hasDerivAt_ramp _ _ f.y f.x)
    (hasDerivAt_ramp _ _ f.y f.x) (hasDerivAt_ramp _ _ f.y f.x) (hasDerivAt_weight f.x)

theorem hasDerivAt_cellNoise_y (f : Vec2 𝕜) :
    HasDerivAt (fun t => (cellNoise gradients cell ⟨f.x, t⟩).x) (cellNoise gradients cell f).z
      f.y := by
  simp only [cellNoise_eq_mirrored gradients cell]
  exact hasDerivAt_cellNoise_x (turned gradients) (transposed cell) (transposed f)

/-! ## Common edges -/

theorem cellNoise_right_edge (t : 𝕜) :
    cellNoise gradients cell ⟨1, t⟩ = cellNoise gradients (add cell ⟨1, 0⟩) ⟨0, t⟩ := by
  have hcorner : add (add cell ⟨1, 0⟩) ⟨0, 1⟩ = add cell ⟨1, 1⟩ := by
    simp [Vec.add, Components.zipWith]
  simp only [cellNoise, blendCorners_eq, hcorner, ramp, mixed, weight, slope, Vec3.mk.injEq]
  refine ⟨?_, ?_, ?_⟩ <;> ring

theorem cellNoise_upper_edge (t : 𝕜) :
    cellNoise gradients cell ⟨t, 1⟩ = cellNoise gradients (add cell ⟨0, 1⟩) ⟨t, 0⟩ := by
  rw [cellNoise_eq_mirrored, cellNoise_eq_mirrored gradients (add cell ⟨0, 1⟩)]
  exact congrArg mirrored (cellNoise_right_edge (turned gradients) (transposed cell) t)

theorem cellNoise_lattice :
    cellNoise gradients cell ⟨0, 0⟩ = ⟨0, (gradients cell).x, (gradients cell).y⟩ := by
  simp only [cellNoise, blendCorners_eq, ramp, mixed, weight, slope, Vec3.mk.injEq]
  refine ⟨?_, ?_, ?_⟩ <;> ring

end Exact

/-! ## The whole plane -/

/-- The exact noise at a position of the plane. -/
noncomputable def planeNoise (gradients : Vec2 ℝ → Vec2 ℝ) (p : Vec2 ℝ) : Vec3 ℝ :=
  cellNoise gradients ⟨⌊p.x⌋, ⌊p.y⌋⟩ ⟨Int.fract p.x, Int.fract p.y⟩

section Plane

variable (gradients : Vec2 ℝ → Vec2 ℝ)

theorem planeNoise_eq_mirrored (p : Vec2 ℝ) :
    planeNoise gradients p = mirrored (planeNoise (turned gradients) (transposed p)) :=
  cellNoise_eq_mirrored gradients ⟨⌊p.x⌋, ⌊p.y⌋⟩ ⟨Int.fract p.x, Int.fract p.y⟩

/-- The noise on a cell together with its two upright edges. -/
theorem planeNoise_of_mem_Icc {n : ℤ} {t : ℝ} (ht : t ∈ Set.Icc (n : ℝ) (n + 1)) (y : ℝ) :
    planeNoise gradients ⟨t, y⟩ = cellNoise gradients ⟨n, ⌊y⌋⟩ ⟨t - n, Int.fract y⟩ := by
  unfold planeNoise
  rcases ht.2.eq_or_lt with hedge | hinside
  · have hcell : (⟨⌊t⌋, ⌊y⌋⟩ : Vec2 ℝ) = add ⟨n, ⌊y⌋⟩ ⟨1, 0⟩ := by
      simp [Vec.add, Components.zipWith, hedge]
    have hleft : Int.fract t = 0 := by simp [hedge]
    have hright : t - n = 1 := by linarith
    simp only [hcell, hleft, hright]
    exact (cellNoise_right_edge gradients ⟨n, ⌊y⌋⟩ (Int.fract y)).symm
  · have hfloor : ⌊t⌋ = n := Int.floor_eq_iff.mpr ⟨ht.1, hinside⟩
    simp only [Int.fract, hfloor]

/-- A cell that covers the neighbourhood of `x` on one side gives the derivative from that side. -/
theorem hasDerivWithinAt_planeNoise {n : ℤ} {x : ℝ} {side : Set ℝ}
    (hx : x ∈ Set.Icc (n : ℝ) (n + 1)) (hside : Set.Icc (n : ℝ) (n + 1) ∈ nhdsWithin x side)
    (y : ℝ) :
    HasDerivWithinAt (fun t => (planeNoise gradients ⟨t, y⟩).x) (planeNoise gradients ⟨x, y⟩).y
      side x := by
  have hcell := (hasDerivAt_cellNoise_x gradients ⟨n, ⌊y⌋⟩ ⟨x - n, Int.fract y⟩).comp_sub_const
    x n
  rw [← planeNoise_of_mem_Icc gradients hx y] at hcell
  apply hcell.hasDerivWithinAt.congr_of_eventuallyEq
  · filter_upwards [hside] with t ht
    rw [planeNoise_of_mem_Icc gradients ht y]
  · rw [planeNoise_of_mem_Icc gradients hx y]

theorem hasDerivAt_planeNoise_x (p : Vec2 ℝ) :
    HasDerivAt (fun t => (planeNoise gradients ⟨t, p.y⟩).x) (planeNoise gradients p).y p.x := by
  -- On an edge the two sides are in different cells.
  have hleft : HasDerivWithinAt (fun t => (planeNoise gradients ⟨t, p.y⟩).x)
      (planeNoise gradients p).y (Set.Iic p.x) p.x := by
    have hlt : ((⌈p.x⌉ - 1 : ℤ) : ℝ) < p.x := by
      push_cast
      linarith [Int.ceil_lt_add_one p.x]
    have hle : p.x ≤ ((⌈p.x⌉ - 1 : ℤ) : ℝ) + 1 := by
      push_cast
      linarith [Int.le_ceil p.x]
    exact hasDerivWithinAt_planeNoise gradients ⟨hlt.le, hle⟩
      (Filter.mem_of_superset (Ioc_mem_nhdsLE hlt) fun t ht => ⟨ht.1.le, ht.2.trans hle⟩) p.y
  have hright : HasDerivWithinAt (fun t => (planeNoise gradients ⟨t, p.y⟩).x)
      (planeNoise gradients p).y (Set.Ici p.x) p.x := by
    have hle := Int.floor_le p.x
    have hlt := Int.lt_floor_add_one p.x
    exact hasDerivWithinAt_planeNoise gradients ⟨hle, hlt.le⟩
      (Filter.mem_of_superset (Ico_mem_nhdsGE hlt) fun t ht => ⟨hle.trans ht.1, ht.2.le⟩) p.y
  rw [← hasDerivWithinAt_univ, ← Set.Iic_union_Ici]
  exact hleft.union hright

theorem hasDerivAt_planeNoise_y (p : Vec2 ℝ) :
    HasDerivAt (fun t => (planeNoise gradients ⟨p.x, t⟩).x) (planeNoise gradients p).z p.y := by
  simp only [planeNoise_eq_mirrored gradients]
  exact hasDerivAt_planeNoise_x (turned gradients) (transposed p)

end Plane

/-- In every cell of the exact noise the derivatives are those of the value, cells agree along
their edges in all three components, and at a lattice point the derivatives are its gradient; so
the derivatives are right in the whole plane. -/
theorem gradient_differentiates_seamlessly :
    (∀ p, gradient p = cellNoise latticeGradient (floor p) (fraction p)) ∧
    (∀ {𝕜 : Type} [NontriviallyNormedField 𝕜] (gradients : Vec2 𝕜 → Vec2 𝕜) (cell : Vec2 𝕜),
      (∀ f : Vec2 𝕜,
        HasDerivAt (fun t => (cellNoise gradients cell ⟨t, f.y⟩).x) (cellNoise gradients cell f).y
          f.x ∧
        HasDerivAt (fun t => (cellNoise gradients cell ⟨f.x, t⟩).x) (cellNoise gradients cell f).z
          f.y) ∧
      (∀ t, cellNoise gradients cell ⟨1, t⟩ = cellNoise gradients (add cell ⟨1, 0⟩) ⟨0, t⟩) ∧
      (∀ t, cellNoise gradients cell ⟨t, 1⟩ = cellNoise gradients (add cell ⟨0, 1⟩) ⟨t, 0⟩) ∧
      cellNoise gradients cell ⟨0, 0⟩ = ⟨0, (gradients cell).x, (gradients cell).y⟩) ∧
    ∀ (gradients : Vec2 ℝ → Vec2 ℝ) (p : Vec2 ℝ),
      HasDerivAt (fun t => (planeNoise gradients ⟨t, p.y⟩).x) (planeNoise gradients p).y p.x ∧
      HasDerivAt (fun t => (planeNoise gradients ⟨p.x, t⟩).x) (planeNoise gradients p).z p.y := by
  refine ⟨gradient_eq_cellNoise, fun gradients cell => ⟨fun f => ?_, ?_, ?_, ?_⟩,
    fun gradients p => ?_⟩
  · exact ⟨hasDerivAt_cellNoise_x gradients cell f, hasDerivAt_cellNoise_y gradients cell f⟩
  · exact cellNoise_right_edge gradients cell
  · exact cellNoise_upper_edge gradients cell
  · exact cellNoise_lattice gradients cell
  · exact ⟨hasDerivAt_planeNoise_x gradients p, hasDerivAt_planeNoise_y gradients p⟩

end NoiseShader.Noise
