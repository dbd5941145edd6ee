import NoiseShader.Image.Renderer
import NoiseShader.Proofs.Kernel.Cache

/-!
# Painting sets every pixel once

A kernel that fails or stores the values of a function is painted on an image of
any kind, by a renderer that may have painted any other images before.  Each row
takes one call of the kernel, and a call that succeeds sets each pixel of its row
to the colour of the function at the centre of the pixel.  What earlier rows and
earlier images left in the buffers never shows.

The calls of a kernel are seen through a kernel that records them, and the image
through the strokes that are drawn on it, so nothing is assumed about what an
image keeps of them.
-/

namespace NoiseShader

variable {ι σ : Type}

/-! ## Strokes -/

structure Stroke where
  x : ℤ
  y : ℤ
  color : Color

def Stroke.place (stroke : Stroke) : ℤ × ℤ := (stroke.x, stroke.y)

def Surface.draw [Surface ι] (image : ι) (stroke : Stroke) : ι :=
  Surface.set image stroke.x stroke.y stroke.color

/-- Every pixel of the first rows is set once, to its colour, and no other pixel is set. -/
structure Covers (strokes : List Stroke) (bounds : Rectangle) (rows : ℕ)
    (color? : (column row : ℕ) → Option Color) : Prop where
  once : (strokes.map Stroke.place).Nodup
  complete : ∀ column < bounds.width, ∀ row < rows, (color? column row).isSome = true
  mem_iff : ∀ stroke, stroke ∈ strokes ↔ ∃ column < bounds.width, ∃ row < rows,
    stroke.x = bounds.left + column ∧ stroke.y = bounds.top + row ∧
      color? column row = some stroke.color

/-- The stroke on a pixel by its row and column. -/
def strokeAt (bounds : Rectangle) (color : (column row : ℕ) → Color) (row column : ℕ) : Stroke :=
  ⟨bounds.left + column, bounds.top + row, color column row⟩

/-- The strokes on all pixels of some rows. -/
def rowStrokes (bounds : Rectangle) (color : (column row : ℕ) → Color) (rows : List ℕ) :
    List Stroke :=
  rows.flatMap fun row => (List.range bounds.width).map (strokeAt bounds color row)

theorem covers_rowStrokes {bounds : Rectangle} {rows : ℕ} {color? : ℕ → ℕ → Option Color}
    {color : ℕ → ℕ → Color}
    (hcolor : ∀ column < bounds.width, ∀ row < rows, color? column row = some (color column row)) :
    Covers (rowStrokes bounds color (List.range rows)) bounds rows color? where
  once := by
    have hplaces : (rowStrokes bounds color (List.range rows)).map Stroke.place =
        ((List.range rows).product (List.range bounds.width)).map fun pixel =>
          (bounds.left + pixel.2, bounds.top + pixel.1) := by
      simp [rowStrokes, List.product, List.map_flatMap, Function.comp_def, strokeAt, Stroke.place]
    rw [hplaces]
    apply (List.nodup_range.product List.nodup_range).map
    rintro ⟨row, column⟩ ⟨row', column'⟩ hsame
    simp only [Prod.mk.injEq, add_right_inj, Nat.cast_inj] at hsame
    rw [hsame.1, hsame.2]
  complete column hcolumn row hrow := by rw [hcolor column hcolumn row hrow]; rfl
  mem_iff stroke := by
    simp only [rowStrokes, List.mem_flatMap, List.mem_map, List.mem_range]
    constructor
    · rintro ⟨row, hrow, column, hcolumn, rfl⟩
      exact ⟨column, hcolumn, row, hrow, rfl, rfl, hcolor column hcolumn row hrow⟩
    · rintro ⟨column, hcolumn, row, hrow, hx, hy, hshade⟩
      rw [hcolor column hcolumn row hrow, Option.some_inj] at hshade
      refine ⟨row, hrow, column, hcolumn, ?_⟩
      rw [strokeAt, ← hx, ← hy, hshade]

theorem ColorMap.isSome_color? (map : ColorMap) {values : List Float32} (hsome : values ≠ []) :
    (map.color? values).isSome = true := by
  obtain ⟨value, rest, rfl⟩ := List.exists_cons_of_ne_nil hsome
  cases map with
  | gray | gradient =>
      simp only [color?, List.head?_cons, Option.bind_eq_bind, Option.bind_some]
      split_ifs <;> rfl
  | rgb =>
      simp only [color?]
      split_ifs
      · split <;> rfl
      · rfl
  | custom => rfl

namespace Renderer

/-! ## One row -/

section Row

variable {job : Job σ} {f : Point → List Float32} {row : ℕ}

def shade? (job : Job σ) (f : Point → List Float32) (column row : ℕ) : Option Color :=
  job.colors.color? (f (Point.ofVec (job.sampling.centre row column)))

/-- The colour of a pixel; a kernel with components never leaves it open. -/
def shade (job : Job σ) (f : Point → List Float32) (column row : ℕ) : Color :=
  (shade? job f column row).getD alarmColor

theorem shade?_eq (hstores : job.kernel.Stores f) (column row : ℕ) :
    shade? job f column row = some (shade job f column row) := by
  have hlength := hstores.length_eq (Point.ofVec (job.sampling.centre row column))
  have hpos := hstores.components_pos
  have hsome : f (Point.ofVec (job.sampling.centre row column)) ≠ [] := by
    intro hempty
    rw [hempty, List.length_nil] at hlength
    omega
  obtain ⟨color, hcolor⟩ := Option.isSome_iff_exists.mp (job.colors.isSome_color? hsome)
  unfold shade
  rw [shade?, hcolor, Option.getD_some]

theorem colorRow_eq [Surface ι] (hstores : job.kernel.Stores f) (row pixels column : ℕ)
    (image : ι) :
    colorRow job.colors job.components job.bounds row pixels column
        ((List.range' column pixels).flatMap fun column =>
          f (Point.ofVec (job.sampling.centre row column))) image =
      ((List.range' column pixels).map (strokeAt job.bounds (shade job f) row)).foldl
        Surface.draw image := by
  induction pixels generalizing column image with
  | zero => rfl
  | succ pixels ih =>
      have hlength : (f (Point.ofVec (job.sampling.centre row column))).length = job.components :=
        hstores.toNat_length _
      have hcolor := shade?_eq hstores column row
      unfold shade? at hcolor
      rw [List.range'_succ, List.flatMap_cons, colorRow, List.take_left' hlength,
        List.drop_left' hlength, hcolor, ih]
      rfl

/-- The call of the kernel for a row. -/
def call (job : Job σ) (row : ℕ) (values : List Float32) (state : σ) : Evaluation σ :=
  job.kernel.evaluate (job.sampling.row job.bounds.width row) (values.take job.rowLength) state

section Stored

variable (hstores : job.kernel.Stores f) (hwidth : 0 < job.bounds.width)

include hstores hwidth

theorem room_call {values : List Float32} (hroom : job.rowLength ≤ values.length) (row : ℕ) :
    job.sampling.row job.bounds.width row ≠ [] ∧
      ((values.take job.rowLength).length : ℤ) =
        (job.sampling.row job.bounds.width row).length * job.kernel.components := by
  have hpos := hstores.components_pos
  have hcomponents : (job.components : ℤ) = job.kernel.components :=
    Int.toNat_of_nonneg (by omega)
  constructor
  · intro hempty
    have hlength := congrArg List.length hempty
    simp only [Sampling.row, List.length_map, List.length_range, List.length_nil] at hlength
    omega
  · rw [List.length_take, Nat.min_eq_left hroom, Job.rowLength, Nat.cast_mul, hcomponents]
    simp [Sampling.row]

theorem values_call {values : List Float32} {state : σ} (hroom : job.rowLength ≤ values.length)
    (hok : (call job row values state).outcome = .ok ()) :
    (call job row values state).values =
      (List.range' 0 job.bounds.width).flatMap fun column =>
        f (Point.ofVec (job.sampling.centre row column)) := by
  obtain ⟨hpositions, hlength⟩ := room_call hstores hwidth hroom row
  have hstored := hstores.stored hpositions hlength hok
  rw [call, hstored, Sampling.row, List.flatMap_map, List.range_eq_range']

end Stored

variable [Surface ι] {progress : Progress ι σ}

/-- The kernel is called once for a row, with the positions of the row, whatever stood in the
buffer of positions; the image changes only if the call succeeds. -/
theorem paintRow_eq (row : ℕ) (progress : Progress ι σ) :
    paintRow job row progress =
      let result := call job row progress.values progress.state
      (result.outcome,
        { image :=
            match result.outcome with
            | .ok () => colorRow job.colors job.components job.bounds row job.bounds.width 0
                result.values progress.image
            | .error _ => progress.image
          positions := job.sampling.row job.bounds.width row ++
            progress.positions.drop job.bounds.width
          values := result.values ++ progress.values.drop job.rowLength
          state := result.state }) := by
  have hlength : (job.sampling.row job.bounds.width row).length = job.bounds.width := by
    simp [Sampling.row]
  unfold paintRow call
  simp only [List.take_left' hlength]
  generalize job.kernel.evaluate _ _ progress.state = result
  obtain ⟨outcome, values, state⟩ := result
  cases outcome <;> rfl

theorem outcome_paintRow : (paintRow job row progress).1 =
    (call job row progress.values progress.state).outcome := by
  rw [paintRow_eq]

theorem state_paintRow : (paintRow job row progress).2.state =
    (call job row progress.values progress.state).state := by
  rw [paintRow_eq]

theorem image_paintRow_of_error {cause : EvaluationError}
    (hfailed : (call job row progress.values progress.state).outcome = .error cause) :
    (paintRow job row progress).2.image = progress.image := by
  rw [paintRow_eq]
  simp only [hfailed]

theorem length_positions_paintRow (hwidth : job.bounds.width ≤ progress.positions.length) :
    (paintRow job row progress).2.positions.length = progress.positions.length := by
  rw [paintRow_eq]
  simp only [Sampling.row, List.length_append, List.length_map, List.length_range,
    List.length_drop]
  omega

section Painted

variable (hstores : job.kernel.Stores f) (hwidth : 0 < job.bounds.width)
  (hroom : job.rowLength ≤ progress.values.length)
  (hok : (call job row progress.values progress.state).outcome = .ok ())

include hstores hwidth hroom hok

theorem image_paintRow : (paintRow job row progress).2.image =
    (rowStrokes job.bounds (shade job f) [row]).foldl Surface.draw progress.image := by
  rw [paintRow_eq]
  simp only [hok]
  rw [values_call hstores hwidth hroom hok, colorRow_eq hstores, rowStrokes,
    List.flatMap_singleton, List.range_eq_range']

theorem room_paintRow : job.rowLength ≤ (paintRow job row progress).2.values.length := by
  have hlength : (call job row progress.values progress.state).values.length =
      job.rowLength := by
    rw [values_call hstores hwidth hroom hok, List.length_flatMap]
    simp [hstores.toNat_length, Job.rowLength, Job.components]
  rw [paintRow_eq]
  simp [hlength]

end Painted

/-! ## All rows -/

theorem paintRows_succ (remaining row : ℕ) (progress : Progress ι σ) :
    paintRows job (remaining + 1) row progress =
      match (call job row progress.values progress.state).outcome with
      | .error cause => (.error cause, (paintRow job row progress).2)
      | .ok () => paintRows job remaining (row + 1) (paintRow job row progress).2 := by
  rw [paintRows, ← outcome_paintRow]
  generalize paintRow job row progress = step
  obtain ⟨outcome, after⟩ := step
  cases outcome <;> rfl

theorem paintRows_of_error {cause : EvaluationError}
    (hfailed : (call job row progress.values progress.state).outcome = .error cause)
    (remaining : ℕ) :
    paintRows job (remaining + 1) row progress = (.error cause, (paintRow job row progress).2) := by
  rw [paintRows_succ, hfailed]

theorem paintRows_of_ok (hok : (call job row progress.values progress.state).outcome = .ok ())
    (remaining : ℕ) :
    paintRows job (remaining + 1) row progress =
      paintRows job remaining (row + 1) (paintRow job row progress).2 := by
  rw [paintRows_succ, hok]

theorem length_positions_paintRows (remaining : ℕ) (row : ℕ) (progress : Progress ι σ)
    (hwidth : job.bounds.width ≤ progress.positions.length) :
    (paintRows job remaining row progress).2.positions.length = progress.positions.length := by
  induction remaining generalizing row progress with
  | zero => rfl
  | succ remaining ih =>
      have hstep := @length_positions_paintRow _ _ job row _ progress hwidth
      cases houtcome : (call job row progress.values progress.state).outcome with
      | error cause => rw [paintRows_of_error houtcome, hstep]
      | ok => rw [paintRows_of_ok houtcome, ih _ _ (hstep ▸ hwidth), hstep]

end Row

/-! ## Calls of the kernel -/

structure Call where
  positions : List Point
  outcome : Except EvaluationError Unit

end Renderer

/-- The kernel with a record of its calls. -/
def Kernel.traced (kernel : Kernel σ) : Kernel (σ × List Renderer.Call) where
  components := kernel.components
  evaluate positions values state :=
    let result := kernel.evaluate positions values state.1
    ⟨result.outcome, result.values, result.state, state.2 ++ [⟨positions, result.outcome⟩]⟩

theorem Kernel.Stores.traced {kernel : Kernel σ} {f : Point → List Float32}
    (hstores : kernel.Stores f) : kernel.traced.Stores f where
  components_pos := hstores.components_pos
  length_eq := hstores.length_eq
  stored hpositions hlength hok := hstores.stored hpositions hlength hok

namespace Renderer

/-- The calls for rows from the first one on, one for each row that was painted, and one more if
it was that call that failed. -/
inductive Ends (batch : ℕ → List Point) (first : ℕ) :
    (remaining rows : ℕ) → Except EvaluationError Unit → List Call → Prop
  | done (remaining : ℕ) :
      Ends batch first remaining remaining (.ok ())
        ((List.range' first remaining).map fun row => ⟨batch row, .ok ()⟩)
  | failed {remaining rows : ℕ} (hrows : rows < remaining) (cause : EvaluationError) :
      Ends batch first remaining rows (.error cause)
        ((List.range' first rows).map (fun row => ⟨batch row, .ok ()⟩) ++
          [⟨batch (first + rows), .error cause⟩])

theorem Ends.eq_of_ok {batch : ℕ → List Point} {first remaining rows : ℕ}
    {outcome : Except EvaluationError Unit} {calls : List Call}
    (hends : Ends batch first remaining rows outcome calls) (hok : outcome = .ok ()) :
    rows = remaining := by
  cases hends with
  | done => rfl
  | failed => cases hok

theorem Ends.next {batch : ℕ → List Point} {first remaining rows : ℕ}
    {outcome : Except EvaluationError Unit} {calls : List Call}
    (hends : Ends batch (first + 1) remaining rows outcome calls) :
    Ends batch first (remaining + 1) (rows + 1) outcome (⟨batch first, .ok ()⟩ :: calls) := by
  cases hends with
  | done =>
      have hdone := @Ends.done batch first (remaining + 1)
      rwa [List.range'_succ] at hdone
  | failed hrows cause =>
      have hfailed := @Ends.failed batch first _ _ (Nat.succ_lt_succ hrows) cause
      rw [List.range'_succ, show first + (rows + 1) = first + 1 + rows by omega] at hfailed
      exact hfailed

section Trace

variable [Surface ι] {job : Job (σ × List Call)} {f : Point → List Float32}

theorem paintRows_traced (hkernel : ∃ kernel : Kernel σ, job.kernel = kernel.traced)
    (hstores : job.kernel.Stores f) (hwidth : 0 < job.bounds.width) (remaining row : ℕ)
    (progress : Progress ι (σ × List Call)) (hroom : job.rowLength ≤ progress.values.length) :
    ∃ rows calls,
      Ends (job.sampling.row job.bounds.width) row remaining rows
        (paintRows job remaining row progress).1 calls ∧
      (paintRows job remaining row progress).2.image =
        (rowStrokes job.bounds (shade job f) (List.range' row rows)).foldl Surface.draw
          progress.image ∧
      (paintRows job remaining row progress).2.state.2 = progress.state.2 ++ calls := by
  induction remaining generalizing row progress with
  | zero => exact ⟨0, [], .done 0, rfl, (List.append_nil _).symm⟩
  | succ remaining ih =>
      have hlog : (call job row progress.values progress.state).state.2 = progress.state.2 ++
          [⟨job.sampling.row job.bounds.width row,
            (call job row progress.values progress.state).outcome⟩] := by
        obtain ⟨kernel, hkernel⟩ := hkernel
        rw [call, hkernel]
        rfl
      cases houtcome : (call job row progress.values progress.state).outcome with
      | error cause =>
          refine ⟨0, [⟨job.sampling.row job.bounds.width row, .error cause⟩], ?_, ?_, ?_⟩
          · rw [paintRows_of_error houtcome]
            exact .failed (Nat.succ_pos remaining) cause
          · rw [paintRows_of_error houtcome, image_paintRow_of_error houtcome]
            rfl
          · rw [paintRows_of_error houtcome, state_paintRow, hlog, houtcome]
      | ok =>
          obtain ⟨rows, calls, hends, himage, hcalls⟩ := ih (row + 1) (paintRow job row progress).2
            (room_paintRow hstores hwidth hroom houtcome)
          refine ⟨rows + 1, ⟨job.sampling.row job.bounds.width row, .ok ()⟩ :: calls, ?_, ?_, ?_⟩
          · rw [paintRows_of_ok houtcome]
            exact hends.next
          · rw [paintRows_of_ok houtcome, himage, image_paintRow hstores hwidth hroom houtcome,
              ← List.foldl_append, List.range'_succ]
            simp [rowStrokes]
          · rw [paintRows_of_ok houtcome, hcalls, state_paintRow, hlog, houtcome]
            simp

end Trace

/-! ## Tracing changes nothing -/

def Job.traced (job : Job σ) : Job (σ × List Call) :=
  ⟨job.kernel.traced, job.colors, job.sampling, job.bounds⟩

def Progress.untraced (progress : Progress ι (σ × List Call)) : Progress ι σ :=
  ⟨progress.image, progress.positions, progress.values, progress.state.1⟩

section Untraced

variable [Surface ι] {job : Job σ}

theorem paintRow_untraced (row : ℕ) (progress : Progress ι (σ × List Call)) :
    paintRow job row progress.untraced =
      ((paintRow job.traced row progress).1, (paintRow job.traced row progress).2.untraced) := by
  rw [paintRow_eq, paintRow_eq]
  rfl

theorem paintRows_untraced (remaining row : ℕ) (progress : Progress ι (σ × List Call)) :
    paintRows job remaining row progress.untraced =
      ((paintRows job.traced remaining row progress).1,
        (paintRows job.traced remaining row progress).2.untraced) := by
  induction remaining generalizing row progress with
  | zero => rfl
  | succ remaining ih =>
      rw [paintRows, paintRows, paintRow_untraced]
      generalize paintRow job.traced row progress = step
      obtain ⟨outcome, after⟩ := step
      cases outcome with
      | error cause => rfl
      | ok => exact ih (row + 1) after

end Untraced

/-! ## Kernels that do not read their buffer -/

end Renderer

/-- Whether a kernel fails does not depend on what stands in the buffer it is given. -/
def Kernel.Blind (kernel : Kernel σ) : Prop :=
  ∀ ⦃positions : List Point⦄ ⦃values values' : List Float32⦄ (state : σ),
    values.length = values'.length →
      (kernel.evaluate positions values state).outcome =
          (kernel.evaluate positions values' state).outcome ∧
        (kernel.evaluate positions values state).state =
          (kernel.evaluate positions values' state).state

theorem Kernel.Blind.traced {kernel : Kernel σ} (hblind : kernel.Blind) : kernel.traced.Blind := by
  intro positions values values' state hlength
  obtain ⟨houtcome, hstate⟩ := hblind state.1 hlength
  refine ⟨houtcome, Prod.ext hstate ?_⟩
  change state.2 ++ [_] = state.2 ++ [_]
  rw [houtcome]

namespace Renderer

section Blind

variable [Surface ι] {job : Job σ} {f : Point → List Float32}

theorem call_blind (hblind : job.kernel.Blind) {values values' : List Float32}
    (hroom : job.rowLength ≤ values.length) (hroom' : job.rowLength ≤ values'.length) (row : ℕ)
    (state : σ) :
    (call job row values state).outcome = (call job row values' state).outcome ∧
      (call job row values state).state = (call job row values' state).state := by
  apply hblind
  rw [List.length_take, List.length_take, Nat.min_eq_left hroom, Nat.min_eq_left hroom']

/-- Nothing that stands in the buffers shows in what is painted. -/
theorem paintRows_blind (hblind : job.kernel.Blind) (hstores : job.kernel.Stores f)
    (hwidth : 0 < job.bounds.width) (remaining row : ℕ) {progress progress' : Progress ι σ}
    (hroom : job.rowLength ≤ progress.values.length)
    (hroom' : job.rowLength ≤ progress'.values.length)
    (himage : progress.image = progress'.image) (hstate : progress.state = progress'.state) :
    (paintRows job remaining row progress).1 = (paintRows job remaining row progress').1 ∧
      (paintRows job remaining row progress).2.image =
        (paintRows job remaining row progress').2.image ∧
      (paintRows job remaining row progress).2.state =
        (paintRows job remaining row progress').2.state := by
  induction remaining generalizing row progress progress' with
  | zero => exact ⟨rfl, himage, hstate⟩
  | succ remaining ih =>
      obtain ⟨hsame, hafter⟩ := call_blind hblind hroom hroom' row progress.state
      have hnext : (paintRow job row progress).2.state = (paintRow job row progress').2.state := by
        rw [state_paintRow, state_paintRow, hafter, hstate]
      cases houtcome : (call job row progress.values progress.state).outcome with
      | error cause =>
          have houtcome' := houtcome
          rw [hsame, hstate] at houtcome'
          rw [paintRows_of_error houtcome, paintRows_of_error houtcome']
          refine ⟨rfl, ?_, hnext⟩
          rw [image_paintRow_of_error houtcome, image_paintRow_of_error houtcome', himage]
      | ok =>
          have houtcome' := houtcome
          rw [hsame, hstate] at houtcome'
          -- Both rows are drawn from the function, so the buffers may differ again.
          rw [paintRows_of_ok houtcome, paintRows_of_ok houtcome']
          apply ih _ (room_paintRow hstores hwidth hroom houtcome)
            (room_paintRow hstores hwidth hroom' houtcome') _ hnext
          rw [image_paintRow hstores hwidth hroom houtcome,
            image_paintRow hstores hwidth hroom' houtcome', himage]

end Blind

/-! ## Whole paintings -/

/-- The checks that are made before anything is painted. -/
structure Accepts (capacity components : ℤ) (domain : Domain) (bounds : Rectangle) : Prop where
  width_pos : 0 < bounds.width
  height_pos : 0 < bounds.height
  width_le : (bounds.width : ℤ) ≤ capacity
  size_pos : 0 < domain.high.x - domain.low.x ∧ 0 < domain.high.y - domain.low.y
  components_pos : 1 ≤ components

/-- The error of the first check that fails. -/
inductive Refuses (capacity components : ℤ) (domain : Domain) (bounds : Rectangle) :
    PaintError → Prop
  | emptyImage (hempty : bounds.width = 0 ∨ bounds.height = 0) :
      Refuses capacity components domain bounds .emptyImage
  | longRows (hwidth : 0 < bounds.width) (hheight : 0 < bounds.height)
      (hlong : capacity < bounds.width) :
      Refuses capacity components domain bounds (.longRows capacity.toNat bounds.width)
  | emptyDomain (hwidth : 0 < bounds.width) (hheight : 0 < bounds.height)
      (hfits : (bounds.width : ℤ) ≤ capacity)
      (hsize : ¬ (0 < domain.high.x - domain.low.x ∧ 0 < domain.high.y - domain.low.y)) :
      Refuses capacity components domain bounds .emptyDomain
  | noComponents (hwidth : 0 < bounds.width) (hheight : 0 < bounds.height)
      (hfits : (bounds.width : ℤ) ≤ capacity)
      (hsize : 0 < domain.high.x - domain.low.x ∧ 0 < domain.high.y - domain.low.y)
      (hnone : components < 1) : Refuses capacity components domain bounds .noComponents

section Whole

variable [Surface ι] {renderer : Renderer} {kernel : Kernel σ} {state : σ} {domain : Domain}
  {image : ι}

theorem paintOn_refused
    (hrefused : ¬ Accepts renderer.positions.length kernel.components domain
      (Surface.bounds image)) :
    ∃ e, Refuses renderer.positions.length kernel.components domain (Surface.bounds image) e ∧
      renderer.paintOn kernel state domain image = ⟨.error e, image, renderer, state⟩ := by
  unfold paintOn
  simp only
  split_ifs with hempty hlong hsize hnone
  · exact ⟨_, .emptyImage hempty, rfl⟩
  · exact ⟨_, .longRows (by omega) (by omega) (by omega), rfl⟩
  · exact ⟨_, .noComponents (by omega) (by omega) (by omega) hsize hnone, rfl⟩
  · exact absurd ⟨by omega, by omega, by omega, hsize, by omega⟩ hrefused
  · exact ⟨_, .emptyDomain (by omega) (by omega) (by omega) hsize, rfl⟩

def run (renderer : Renderer) (kernel : Kernel σ) (state : σ) (domain : Domain) (image : ι) :
    Except EvaluationError Unit × Progress ι σ :=
  let job := Job.of renderer.colors kernel domain (Surface.bounds image)
  paintRows job (Surface.bounds image).height 0
    ⟨image, renderer.positions, withRoom job.rowLength renderer.values, state⟩

theorem paintOn_accepted
    (haccepts : Accepts renderer.positions.length kernel.components domain
      (Surface.bounds image)) :
    renderer.paintOn kernel state domain image =
      let run := renderer.run kernel state domain image
      ⟨run.1.mapError .evaluation, run.2.image,
        ⟨renderer.colors, run.2.positions, run.2.values⟩, run.2.state⟩ := by
  obtain ⟨hwidth, hheight, hfits, hpositive, hcomponents⟩ := haccepts
  have hsize : 0 < (Vec.sub domain.high domain.low).x ∧ 0 < (Vec.sub domain.high domain.low).y :=
    hpositive
  unfold paintOn
  simp only
  rw [if_neg (by omega), if_neg (by omega), if_neg (not_not.mpr hsize), if_neg (by omega)]
  rfl

theorem eq_ok_of_mapError {outcome : Except EvaluationError Unit}
    (hok : outcome.mapError PaintError.evaluation = .ok ()) : outcome = .ok () := by
  cases outcome with
  | error => cases hok
  | ok => rfl

theorem room_withRoom (length : ℕ) (values : List Float32) :
    length ≤ (withRoom length values).length := by
  unfold withRoom
  split_ifs with hshort
  · rw [List.length_replicate]
  · omega

/-- Recording the calls of a kernel changes nothing else. -/
theorem paintOn_untraced (log : List Call) :
    renderer.paintOn kernel state domain image =
      let traced := renderer.paintOn kernel.traced (state, log) domain image
      ⟨traced.outcome, traced.image, traced.renderer, traced.state.1⟩ := by
  have hcomponents : kernel.traced.components = kernel.components := rfl
  have hrun : renderer.run kernel state domain image =
      ((renderer.run kernel.traced (state, log) domain image).1,
        (renderer.run kernel.traced (state, log) domain image).2.untraced) :=
    @paintRows_untraced _ _ _ (Job.of renderer.colors kernel domain (Surface.bounds image)) _ _
      ⟨image, renderer.positions, withRoom _ renderer.values, (state, log)⟩
  by_cases haccepts : Accepts renderer.positions.length kernel.components domain
      (Surface.bounds image)
  · rw [paintOn_accepted haccepts, paintOn_accepted (hcomponents ▸ haccepts), hrun]
    rfl
  · unfold paintOn
    simp only [hcomponents]
    split_ifs with hempty hlong hsize hnone
    · rfl
    · rfl
    · rfl
    · exact absurd ⟨by omega, by omega, by omega, hsize, by omega⟩ haccepts
    · rfl

/-- A painting keeps the colours of the renderer and the length of its longest rows. -/
theorem renderer_paintOn :
    (renderer.paintOn kernel state domain image).renderer.colors = renderer.colors ∧
      (renderer.paintOn kernel state domain image).renderer.positions.length =
        renderer.positions.length := by
  by_cases haccepts : Accepts renderer.positions.length kernel.components domain
      (Surface.bounds image)
  · rw [paintOn_accepted haccepts]
    have hfits := haccepts.width_le
    refine ⟨rfl, length_positions_paintRows _ _ _ ?_⟩
    exact Nat.cast_le.mp hfits
  · obtain ⟨e, -, hpainting⟩ := @paintOn_refused _ _ _ _ _ state _ _ haccepts
    rw [hpainting]
    exact ⟨rfl, rfl⟩

end Whole

/-- A renderer after any paintings, with any kernels and on any images. -/
inductive Used (fresh : Renderer) : Renderer → Prop
  | new : Used fresh fresh
  | painted {ι σ : Type} [Surface ι] {renderer : Renderer} (hused : Used fresh renderer)
      (kernel : Kernel σ) (state : σ) (domain : Domain) (image : ι) :
      Used fresh (renderer.paintOn kernel state domain image).renderer

theorem Used.kept {fresh renderer : Renderer} (hused : fresh.Used renderer) :
    renderer.colors = fresh.colors ∧ renderer.positions.length = fresh.positions.length := by
  induction hused with
  | new => exact ⟨rfl, rfl⟩
  | painted _ kernel state domain image ih =>
      obtain ⟨hcolors, hpositions⟩ := @renderer_paintOn _ _ _ _ kernel state domain image
      exact ⟨hcolors.trans ih.1, hpositions.trans ih.2⟩

theorem created {capacity : ℤ} {colors : Option ColorMap} {fresh : Renderer}
    (hcreated : create capacity colors = .ok fresh) :
    fresh.colors = colors ∧ (fresh.positions.length : ℤ) = capacity := by
  unfold create at hcreated
  split_ifs at hcreated with hsmall
  obtain rfl := Except.ok.inj hcreated
  refine ⟨rfl, ?_⟩
  rw [List.length_replicate]
  exact Int.toNat_of_nonneg (by omega)

/-- The position that the kernel is evaluated at for a pixel. -/
def pixelCentre (domain : Domain) (bounds : Rectangle) (column row : ℕ) : Point :=
  let dx := (domain.high.x - domain.low.x) / Float32.ofNat bounds.width
  let dy := (domain.high.y - domain.low.y) / Float32.ofNat bounds.height
  .ofVec ⟨domain.low.x + dx / 2 + Float32.ofNat column * dx,
    domain.high.y - dy / 2 - Float32.ofNat row * dy⟩

/-- The positions of a row, from the left. -/
def rowCentres (domain : Domain) (bounds : Rectangle) (row : ℕ) : List Point :=
  (List.range bounds.width).map fun column => pixelCentre domain bounds column row

section Run

variable [Surface ι] {renderer : Renderer} {kernel : Kernel σ} {domain : Domain} {image : ι}
  {f : Point → List Float32}

theorem run_traced (hstores : kernel.Stores f) (hwidth : 0 < (Surface.bounds image).width)
    (renderer : Renderer) (state : σ) (domain : Domain) :
    let bounds := Surface.bounds image
    let run := renderer.run kernel.traced (state, []) domain image
    ∃ rows, Ends (rowCentres domain bounds) 0 bounds.height rows run.1 run.2.state.2 ∧
      run.2.image = (rowStrokes bounds (shade (Job.of renderer.colors kernel domain bounds) f)
        (List.range rows)).foldl Surface.draw image := by
  intro bounds run
  have hjob : (Job.of renderer.colors kernel.traced domain bounds).kernel.Stores f :=
    hstores.traced
  obtain ⟨rows, calls, hends, himage, hcalls⟩ := paintRows_traced ⟨kernel, rfl⟩ hjob hwidth
    bounds.height 0 ⟨image, renderer.positions, withRoom _ renderer.values, (state, [])⟩
    (room_withRoom _ _)
  have hlog : run.2.state.2 = calls := hcalls
  rw [← List.range_eq_range'] at himage
  exact ⟨rows, hlog ▸ hends, himage⟩

theorem run_blind (hblind : kernel.Blind) (hstores : kernel.Stores f)
    (hwidth : 0 < (Surface.bounds image).width) {fresh renderer : Renderer}
    (hcolors : renderer.colors = fresh.colors) (state : σ) (domain : Domain) :
    let run := renderer.run kernel state domain image
    let first := fresh.run kernel state domain image
    run.1 = first.1 ∧ run.2.image = first.2.image ∧ run.2.state = first.2.state := by
  unfold run
  rw [hcolors]
  have hjob : (Job.of fresh.colors kernel domain (Surface.bounds image)).kernel.Stores f := hstores
  exact paintRows_blind hblind hjob hwidth _ 0 (room_withRoom _ _) (room_withRoom _ _) rfl rfl

end Run

/-- What a renderer paints, whatever it painted before: nothing if a check fails, and otherwise
the rows from the top until the kernel fails, each pixel once. -/
theorem paintOn_sets_each_pixel_once {capacity : ℤ} {colors : Option ColorMap}
    {fresh renderer : Renderer} (hcreated : create capacity colors = .ok fresh)
    (hused : fresh.Used renderer) [Surface ι] (kernel : Kernel σ) (state : σ) (domain : Domain)
    (image : ι) :
    let bounds := Surface.bounds image
    let painting := renderer.paintOn kernel.traced (state, []) domain image
    let first := fresh.paintOn kernel.traced (state, []) domain image
    renderer.paintOn kernel state domain image =
        ⟨painting.outcome, painting.image, painting.renderer, painting.state.1⟩ ∧
      (¬ Accepts capacity kernel.components domain bounds →
        ∃ e, Refuses capacity kernel.components domain bounds e ∧
          painting = ⟨.error e, image, renderer, (state, [])⟩) ∧
      (Accepts capacity kernel.components domain bounds → ∀ f, kernel.Stores f →
        (∃ rows outcome,
          Ends (rowCentres domain bounds) 0 bounds.height rows outcome painting.state.2 ∧
          painting.outcome = outcome.mapError .evaluation ∧
          ∃ strokes, painting.image = strokes.foldl Surface.draw image ∧
            Covers strokes bounds rows fun column row =>
              (colors.getD (ColorMap.default kernel.components)).color?
                (f (pixelCentre domain bounds column row))) ∧
        (painting.outcome = .ok () → first.outcome = .ok () → painting.image = first.image) ∧
        (kernel.Blind → painting.outcome = first.outcome ∧ painting.image = first.image ∧
          painting.state = first.state)) := by
  intro bounds painting first
  obtain ⟨hcolors, hcapacity⟩ := created hcreated
  obtain ⟨hsame, hlength⟩ := hused.kept
  refine ⟨paintOn_untraced [], ?_, ?_⟩
  · intro hrefused
    rw [← hcapacity, ← hlength] at hrefused ⊢
    exact @paintOn_refused _ _ _ renderer kernel.traced (state, []) domain image hrefused
  · intro haccepts f hstores
    have hfirst : Accepts fresh.positions.length kernel.components domain bounds :=
      hcapacity ▸ haccepts
    have hagain : Accepts renderer.positions.length kernel.components domain bounds :=
      hlength ▸ hfirst
    have hwidth := haccepts.width_pos
    have hpainting : painting = _ := paintOn_accepted hagain
    have hnew : first = _ := paintOn_accepted hfirst
    obtain ⟨rows, hends, himage⟩ := run_traced hstores hwidth renderer state domain
    obtain ⟨rows', hends', himage'⟩ := run_traced hstores hwidth fresh state domain
    rw [hpainting, hnew]
    simp only
    refine ⟨⟨rows, _, hends, rfl, _, himage, ?_⟩, ?_, ?_⟩
    · have hjob : (Job.of renderer.colors kernel domain bounds).kernel.Stores f := hstores
      rw [← hcolors, ← hsame]
      exact covers_rowStrokes fun column _ row _ => shade?_eq hjob column row
    · intro hok hok'
      have hrows : rows = bounds.height := hends.eq_of_ok (eq_ok_of_mapError hok)
      have hrows' : rows' = bounds.height := hends'.eq_of_ok (eq_ok_of_mapError hok')
      rw [himage, himage', hrows, hrows', hsame]
    · intro hblind
      obtain ⟨houtcome, hblank, hstate⟩ :=
        run_blind hblind.traced hstores.traced hwidth hsame (state, []) domain
      exact ⟨congrArg (Except.mapError PaintError.evaluation) houtcome, hblank, hstate⟩

/-- The unit square on four pixels away from the origin.  The kernel fails on the second row of
the second painting. -/
theorem paintOn_sets_each_pixel_once_interrupted :
    let square : Domain := ⟨⟨0, 0⟩, ⟨1, 1⟩⟩
    let canvas : Raster := .blank ⟨-1, 5, 1, 7, by decide, by decide⟩ .gray
    let fresh : Renderer := ⟨none, List.replicate 65 ⟨0, 0⟩, []⟩
    let renderer := (fresh.paintOn Cached.unsteady 0 square canvas).renderer
    let painting := renderer.paintOn Cached.unsteady.traced (1, []) square canvas
    create 65 none = .ok fresh ∧ fresh.Used renderer ∧
      Accepts 65 Cached.unsteady.components square canvas.bounds ∧
      painting.outcome = .error (.evaluation (.reported "busy")) ∧
      ∃ rows outcome, Ends (rowCentres square canvas.bounds) 0 2 rows outcome painting.state.2 ∧
        painting.outcome = outcome.mapError .evaluation ∧
        ∃ strokes, painting.image = strokes.foldl Surface.draw canvas ∧
          Covers strokes canvas.bounds rows fun column row =>
            let position := (pixelCentre square canvas.bounds column row).toVec
            (ColorMap.gray 0 1).color? [position.x, position.y] := by
  intro square canvas fresh renderer painting
  have hcreated : create 65 none = .ok fresh := rfl
  have hused : fresh.Used renderer := .painted .new Cached.unsteady 0 square canvas
  have haccepts : Accepts 65 Cached.unsteady.components square canvas.bounds :=
    ⟨by decide, by decide, by decide, by decide, by decide⟩
  obtain ⟨-, -, hpaints⟩ :=
    paintOn_sets_each_pixel_once hcreated hused Cached.unsteady 1 square canvas
  obtain ⟨hpainted, -, -⟩ := hpaints haccepts _ Cached.unsteady_stores
  refine ⟨hcreated, hused, haccepts, ?_, hpainted⟩
  decide

end Renderer

end NoiseShader
