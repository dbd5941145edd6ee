import NoiseShader.Command.Session
import NoiseShader.Proofs.Command.Scale
import NoiseShader.Proofs.Image.Painting
import NoiseShader.Proofs.Library.Contents

/-!
# How a run ends

A run that is asked for a picture creates the file before it paints the picture.
Two things can go wrong then although the host and the typesetter do all they are
asked for.  The bytes of the picture may be more than a buffer can have.  Or its
domain has no measure: the check of the scale that is made before compares it with
zero only, so that the scale may not be a number or so small that its half is
rounded to zero.  Both leave the file empty.  Kernels of the registry evaluate
everywhere, whatever their values are, and every row fits the buffers.
-/

namespace NoiseShader

open Number

/-! ## Kernels of the registry -/

namespace Pointwise

variable {kernel : Pointwise Unit} {f : Vec2 Float32 → List Float32}
  (hfunction : kernel.function = fun p => pure (f p))
  (hlength : ∀ p, (f p).length = kernel.components)

include hfunction hlength

theorem store_eq (positions : List Point) (values : List Float32) (state : Unit)
    (hroom : values.length = positions.length * kernel.components) :
    kernel.store positions values state =
      ⟨.ok (), positions.flatMap fun position => f position.toVec, state⟩ := by
  induction positions generalizing values with
  | nil =>
      rw [List.length_nil, Nat.zero_mul] at hroom
      rw [List.eq_nil_of_length_eq_zero hroom]
      rfl
  | cons position rest ih =>
      rw [List.length_cons, Nat.succ_mul] at hroom
      have hrest := ih (values.drop kernel.components) (by rw [List.length_drop]; omega)
      have hyielded : (f position.toVec).length = kernel.components := hlength _
      have hkept : (values.take kernel.components).drop kernel.components = [] :=
        List.drop_eq_nil_of_le (List.length_take_le ..)
      have hrun : (kernel.function position.toVec).run state = (f position.toVec, state) := by
        rw [hfunction]
        rfl
      have htaken : (f position.toVec).take kernel.components = f position.toVec :=
        List.take_of_length_le hyielded.le
      rw [store, hrun]
      simp only [hkept, htaken, hyielded, Nat.lt_irrefl, if_false, hrest, List.flatMap_cons,
        List.append_nil]

theorem evaluate_eq {positions : List Point} {values : List Float32}
    (hroom : checkRoom positions values kernel.components = .ok ())
    (hvalues : values.length = positions.length * kernel.components) (state : State Unit) :
    kernel.evaluate positions values state =
      ⟨.ok (), positions.flatMap fun position => f position.toVec,
        ⟨state.evaluations + positions.length, state.inner⟩⟩ := by
  rw [evaluate, hroom]
  simp only [store_eq hfunction hlength _ _ _ hvalues]

theorem neverFails : kernel.toKernel.NeverFails := by
  intro positions values state hpositions hvalues hcount
  change (values.length : ℤ) = positions.length * (kernel.components : ℤ) at hvalues
  have hroom : checkRoom positions values kernel.components = .ok () :=
    (checkRoom_eq_ok (Int.natCast_nonneg _) hcount).mpr ⟨hpositions, hvalues⟩
  change (kernel.evaluate positions values state).outcome = .ok ()
  rw [evaluate_eq hfunction hlength hroom (by exact_mod_cast hvalues)]

theorem stores (hpos : 1 ≤ kernel.components) :
    kernel.toKernel.Stores fun position => f position.toVec where
  components_pos := Int.ofNat_le.mpr hpos
  length_eq position := congrArg Int.ofNat (hlength position.toVec)
  stored {positions values state} _ hvalues hok := by
    change (values.length : ℤ) = positions.length * (kernel.components : ℤ) at hvalues
    change (kernel.evaluate positions values state).outcome = .ok () at hok
    change (kernel.evaluate positions values state).values = _
    cases hroom : checkRoom positions values kernel.components with
    | error e =>
        rw [evaluate, hroom] at hok
        cases hok
    | ok => rw [evaluate_eq hfunction hlength hroom (by exact_mod_cast hvalues)]

end Pointwise

/-- Everything about a kernel of the registry that a run may need. -/
structure NoiseKernel.Complete (kernel : NoiseKernel) (pointwise : Pointwise Unit)
    (f : Point → List Float32) (program : Program) (text : String) : Prop where
  program_eq : kernel.program = .ok program
  render_eq : program.render = .ok text
  exists_shader : ∀ group, ∃ shader, program.computeShader group = .ok shader
  pointwise_eq : kernel.pointwise = .ok pointwise
  components_le : pointwise.components ≤ 4
  stores : pointwise.toKernel.Stores f
  neverFails : pointwise.toKernel.NeverFails

theorem NoiseKernel.mem_all {name : String} {kernel : NoiseKernel}
    (hfind : find name = .ok kernel) : kernel ∈ all := by
  unfold find at hfind
  split at hfind
  · cases hfind
    exact List.mem_of_find?_eq_some ‹_›
  · cases hfind

theorem NoiseKernel.exists_complete {kernel : NoiseKernel} (hkernel : kernel ∈ all) :
    ∃ pointwise f program text, kernel.Complete pointwise f program text := by
  simp only [all, List.mem_cons, List.not_mem_nil, or_false] at hkernel
  rcases hkernel with rfl | rfl | rfl | rfl | rfl
  all_goals
    exact ⟨_, _, _, _, Library.kernelProgram_eq (by decide) rfl rfl rfl, rfl, fun _ => ⟨_, rfl⟩,
      rfl, by decide, Pointwise.stores rfl (fun _ => rfl) (by decide),
      Pointwise.neverFails rfl fun _ => rfl⟩

/-! ## Pictures -/

namespace Renderer

section Rows

variable {ι σ : Type} [Surface ι] {f : Point → List Float32}

theorem outcome_paintRows {job : Job σ} (hstores : job.kernel.Stores f)
    (hnever : job.kernel.NeverFails) (hwidth : 0 < job.bounds.width)
    (hcount : (job.rowLength : ℤ) < 2 ^ 63) (remaining row : ℕ) (progress : Progress ι σ)
    (hroom : job.rowLength ≤ progress.values.length) :
    (paintRows job remaining row progress).1 = .ok () := by
  induction remaining generalizing row progress with
  | zero => rfl
  | succ remaining ih =>
      obtain ⟨hpositions, hlength⟩ := room_call hstores hwidth hroom row
      have hbatch : ((progress.values.take job.rowLength).length : ℤ) < 2 ^ 63 := by
        rwa [List.length_take, Nat.min_eq_left hroom]
      have hok : (call job row progress.values progress.state).outcome = .ok () :=
        hnever hpositions hlength (hlength ▸ hbatch)
      rw [paintRows_of_ok hok]
      exact ih (row + 1) _ (room_paintRow hstores hwidth hroom hok)

theorem outcome_paintOn {renderer : Renderer} {kernel : Kernel σ} {domain : Domain} {image : ι}
    (hstores : kernel.Stores f) (hnever : kernel.NeverFails)
    (haccepts : Accepts renderer.positions.length kernel.components domain (Surface.bounds image))
    (hcount : (Surface.bounds image).width * kernel.components < 2 ^ 63) (state : σ) :
    (renderer.paintOn kernel state domain image).outcome = .ok () := by
  let job := Job.of renderer.colors kernel domain (Surface.bounds image)
  have hjob : job.kernel.Stores f := hstores
  have hlength : (job.rowLength : ℤ) < 2 ^ 63 := by
    have hpos := hjob.components_pos
    rw [Job.rowLength, Nat.cast_mul, Job.components, Int.toNat_of_nonneg (by omega)]
    exact hcount
  have hrun : (renderer.run kernel state domain image).1 = .ok () :=
    outcome_paintRows hjob hnever haccepts.width_pos hlength _ 0 _ (room_withRoom _ _)
  rw [paintOn_accepted haccepts]
  simp only [hrun]
  rfl

end Rows

end Renderer

/-- The sizes of squares whose bytes a buffer can have, and those whose bytes can be counted. -/
theorem Raster.allocate_square {size : ℤ} (hsize : 0 < size) :
    allocate (.ofCorners 0 0 size size) .rgba =
      if size ≤ 8388608 then .ok (blank (.ofCorners 0 0 size size) .rgba)
      else .error (if size ≤ 1518500249 then .longBuffer else .hugeRectangle .rgba) := by
  obtain ⟨side, rfl⟩ := Int.eq_ofNat_of_zero_le hsize.le
  have hwidth : (Rectangle.ofCorners 0 0 side side).width = side := by
    zify
    simp [Rectangle.cast_width, Rectangle.ofCorners]
  have hheight : (Rectangle.ofCorners 0 0 side side).height = side := by
    zify
    simp [Rectangle.cast_height, Rectangle.ofCorners]
  unfold allocate
  simp only [hwidth, hheight, PixelFormat.bytes, longestBuffer]
  by_cases hfits : side ≤ 8388608
  · have hbytes : 4 * side * side ≤ 4 * 8388608 * 8388608 := by gcongr
    rw [if_neg (by omega), if_neg (by omega), if_pos (by omega)]
  · have hbytes : 4 * 8388609 * 8388609 ≤ 4 * side * side := by gcongr <;> omega
    by_cases hcounted : side ≤ 1518500249
    · have hword : 4 * side * side ≤ 4 * 1518500249 * 1518500249 := by gcongr
      rw [if_neg (by omega), if_pos (by omega), if_neg (by omega), if_pos (by omega)]
    · have hword : 4 * 1518500250 * 1518500250 ≤ 4 * side * side := by gcongr <;> omega
      rw [if_pos (by omega), if_neg (by omega), if_neg (by omega)]

/-- A typesetter that reads the built-in font at the size of a caption. -/
def Typesetter.ReadsBuiltin (typesetter : Typesetter) : Prop :=
  ∃ face, typesetter.face .builtin 12 = .ok face

theorem Captioner.exists_default {typesetter : Typesetter} (hreads : typesetter.ReadsBuiltin) :
    ∃ captioner, default typesetter = .ok captioner := by
  obtain ⟨face, hface⟩ := hreads
  have hnegative : ¬ (0 : Float) < 0 := by decide +kernel
  have hzero : ((0 : Float) == 0) = true := by decide +kernel
  unfold default create
  rw [if_neg hnegative, if_pos hzero, hface]
  exact ⟨_, rfl⟩

/-- Whether a domain has an area, as its corners tell. -/
def Domain.Wide (domain : Domain) : Prop :=
  0 < domain.high.x - domain.low.x ∧ 0 < domain.high.y - domain.low.y

namespace Picture

open Renderer (Accepts Refuses)

variable {σ : Type} {typesetter : Typesetter} {picture : Picture} {kernel : Kernel σ}
  {f : Point → List Float32}

def bounds (picture : Picture) : Rectangle :=
  .ofCorners 0 0 picture.width picture.height

def canvas (picture : Picture) : Raster := .blank picture.bounds .rgba

/-- The renderer of a picture. -/
def renderer (picture : Picture) : Renderer :=
  ⟨picture.colors, List.replicate (max 4096 picture.width).toNat ⟨0, 0⟩, []⟩

def painting (picture : Picture) (kernel : Kernel σ) (state : σ) : Painting Raster σ :=
  picture.renderer.paintOn kernel state picture.domain picture.canvas

theorem exists_annotate (hnone : picture.captioner = none)
    (hfont : picture.caption ≠ "" → typesetter.ReadsBuiltin) (raster : Raster) :
    ∃ annotated, picture.annotate typesetter raster = .ok annotated := by
  unfold annotate
  split_ifs with hcaption
  · exact ⟨raster, rfl⟩
  · obtain ⟨captioner, hcaptioner⟩ := Captioner.exists_default (hfont hcaption)
    rw [hnone]
    simp only [hcaptioner]
    exact ⟨_, rfl⟩

section Sized

variable (hwidth : 0 < picture.width) (hheight : 0 < picture.height)

include hwidth hheight

theorem create_of_error {e : RasterError}
    (hcanvas : Raster.allocate picture.bounds .rgba = .error e) (state : σ) :
    picture.create typesetter kernel state = .error (.raster e) := by
  unfold bounds at hcanvas
  unfold create
  rw [if_neg (by omega), hcanvas]

theorem measures_eq :
    (picture.renderer.positions.length : ℤ) = max 4096 picture.width ∧
      (picture.bounds.width : ℤ) = picture.width ∧
      (picture.bounds.height : ℤ) = picture.height := by
  rw [Rectangle.cast_width, Rectangle.cast_height]
  simp only [renderer, bounds, List.length_replicate, Rectangle.ofCorners]
  omega

section Allocated

variable (hcanvas : Raster.allocate picture.bounds .rgba = .ok picture.canvas)

include hcanvas

theorem create_of_ok (state : σ) :
    picture.create typesetter kernel state =
      match (picture.painting kernel state).outcome with
      | .error e => .error (.painting e)
      | .ok () => picture.annotate typesetter (picture.painting kernel state).image := by
  have hrenderer : Renderer.create (max 4096 picture.width) picture.colors =
      .ok picture.renderer := by
    unfold Renderer.create
    rw [if_neg (by omega)]
    rfl
  unfold bounds at hcanvas
  unfold create
  rw [if_neg (by omega), hcanvas]
  simp only [hrenderer]
  rfl

theorem exists_create (hstores : kernel.Stores f) (hnever : kernel.NeverFails)
    (hcount : picture.width * kernel.components < 2 ^ 63) (hwide : picture.domain.Wide)
    (hnone : picture.captioner = none) (hfont : picture.caption ≠ "" → typesetter.ReadsBuiltin)
    (state : σ) : ∃ raster, picture.create typesetter kernel state = .ok raster := by
  obtain ⟨hcapacity, hcolumns, hrows⟩ := measures_eq hwidth hheight
  have haccepts : Accepts picture.renderer.positions.length kernel.components picture.domain
      picture.bounds :=
    ⟨by omega, by omega, by omega, hwide, hstores.components_pos⟩
  have hpainted : (picture.painting kernel state).outcome = .ok () :=
    Renderer.outcome_paintOn hstores hnever haccepts (hcolumns ▸ hcount) state
  rw [create_of_ok hwidth hheight hcanvas, hpainted]
  exact exists_annotate hnone hfont _

theorem create_emptyDomain (hwide : ¬ picture.domain.Wide) (state : σ) :
    picture.create typesetter kernel state = .error (.painting .emptyDomain) := by
  obtain ⟨hcapacity, hcolumns, hrows⟩ := measures_eq hwidth hheight
  obtain ⟨e, hrefuses, hpainting⟩ :=
    @Renderer.paintOn_refused _ _ _ picture.renderer kernel state picture.domain picture.canvas
      fun haccepts => hwide haccepts.size_pos
  have hbounds : Surface.bounds picture.canvas = picture.bounds := rfl
  have hfailed : (picture.painting kernel state).outcome = .error e :=
    congrArg Painting.outcome hpainting
  rw [create_of_ok hwidth hheight hcanvas, hfailed]
  rw [hbounds] at hrefuses
  cases hrefuses with
  | emptyImage => omega
  | longRows => omega
  | emptyDomain => rfl
  | noComponents _ _ _ hpositive => exact absurd hpositive hwide

end Allocated

end Sized

end Picture

theorem ColorMap.exists_ofScheme {name : String}
    (hname : name ∈ ["default", "gray", "rgb", "heat"]) (components : ℤ) :
    ∃ colors, ofScheme name components = .ok colors := by
  have hlow (map : Float32 → ColorMap) : ∃ colors,
      (checkRange (if components = 1 then -1 else 0) 1
        (map (if components = 1 then -1 else 0))).map some = .ok colors := by
    split_ifs <;> exact ⟨_, rfl⟩
  simp only [List.mem_cons, List.not_mem_nil, or_false] at hname
  rcases hname with rfl | rfl | rfl | rfl
  · exact ⟨none, rfl⟩
  · exact hlow (.gray · 1)
  · exact hlow (.rgb · 1)
  · exact hlow (.gradient · 1 (.rgba 0 0 255 255) (.rgba 255 0 0 255))

/-! ## Runs -/

namespace Command

section Lawful

variable {m : Type → Type} [Monad m]

theorem require_ok {ε α : Type} (cause : ε → CommandError) (value : α) :
    (require cause (.ok value) : ExceptT CommandError m α) = pure value := rfl

/-- The checks that are made before a run does anything. -/
structure Checked (options : Options) (kernel : NoiseKernel) : Prop where
  find_eq : NoiseKernel.find options.kernel = .ok kernel
  measured : ¬ (options.size ≤ 0 ∨ options.scale ≤ 0)
  invocations_pos : ¬ options.invocations < 1

theorem Checked.size_pos {options : Options} {kernel : NoiseKernel}
    (hchecked : Checked options kernel) : 0 < options.size := by
  have hmeasured := hchecked.measured
  omega

variable [LawfulMonad m]

/-- A run that wants a picture and no window first prints what else it was asked for. -/
theorem run_eq_writePicture {options : Options} {kernel : NoiseKernel}
    (hchecked : Checked options kernel) (hpng : options.png ≠ "")
    (hwindow : options.window = false) (typesetter : Typesetter) :
    ∃ texts : List String, ∀ host : Host m,
      run typesetter host options = (do
        texts.forM fun line => host.print line
        writePicture typesetter host options kernel) := by
  obtain ⟨hfind, hmeasured, hinvocations⟩ := hchecked
  obtain ⟨_, _, program, text, hcomplete⟩ :=
    NoiseKernel.exists_complete (NoiseKernel.mem_all hfind)
  obtain ⟨shader, hshader⟩ := hcomplete.exists_shader ⟨options.invocations⟩
  refine ⟨(if options.glsl then [text ++ "\n"] else []) ++
    if options.compute then [shader.1] else [], fun host => ?_⟩
  unfold run
  simp only [hfind, hcomplete.program_eq, hcomplete.render_eq, hshader, require_ok, pure_bind,
    if_neg hmeasured, if_neg hinvocations, if_pos hpng, hwindow, Bool.false_eq_true, if_false]
  have hsilent : (options.png == "") = false := beq_false_of_ne hpng
  cases options.glsl <;> cases options.compute <;>
    simp [hsilent]

end Lawful

end Command

/-- A host on which the file of a path can be created, written and closed.  The content of the file
is read off the state, and telling of the file does not change it. -/
structure Host.Keeps {ω : Type} (host : Host (StateM ω)) (path : String)
    (content : ω → Option FileContent) : Prop where
  created : ∀ state, ∃ next, (host.createFile path).run state = (.ok (), next) ∧
    content next = some .empty
  written : ∀ raster state, content state = some .empty →
    ∃ next, (host.writeImage path raster).run state = (.ok (), next) ∧
      content next = some (.image raster)
  announced : ∀ state, content ((host.announce path).run state).2 = content state
  closed : ∀ state, (content state).isSome = true →
    ∃ next, (host.closeFile path).run state = (.ok (), next) ∧ content next = content state

namespace Command

section Hosted

variable {ω : Type} {host : Host (StateM ω)} {typesetter : Typesetter}

theorem run_liftM_bind {α β : Type} (action : StateM ω α)
    (rest : α → ExceptT CommandError (StateM ω) β) (state : ω) :
    (liftM action >>= rest).run.run state =
      (rest (action.run state).1).run.run (action.run state).2 := rfl

theorem run_print (host : Host (StateM ω)) (texts : List String) (state : ω) :
    ∃ next, (texts.forM fun text => host.print text :
      ExceptT CommandError (StateM ω) Unit).run.run state = (.ok (), next) := by
  induction texts generalizing state with
  | nil => exact ⟨state, rfl⟩
  | cons text rest ih => exact ih ((host.print text).run state).2

/-- What a run does with a picture that was painted or not. -/
def outcomeOf : Except PictureError Raster → Except CommandError Unit
  | .ok _ => .ok ()
  | .error e => .error (.picture e)

/-- What a run leaves in the file of a picture that was painted or not. -/
def contentOf : Except PictureError Raster → FileContent
  | .ok raster => .image raster
  | .error _ => .empty

variable {content : ω → Option FileContent} {created : Except PictureError Raster}

theorem run_fillFile {path : String} (hkeeps : host.Keeps path content) {picture : Picture}
    {kernel : Pointwise Unit}
    (hcreated : picture.create typesetter kernel.toKernel ⟨0, ()⟩ = created) {state : ω}
    (hempty : content state = some .empty) :
    ∃ next, (fillFile typesetter host path picture kernel).run.run state =
        (outcomeOf created, next) ∧ content next = some (contentOf created) := by
  unfold fillFile
  rw [hcreated]
  cases created with
  | error e => exact ⟨state, rfl, hempty⟩
  | ok raster =>
      obtain ⟨written, hwritten, himage⟩ := hkeeps.written raster state hempty
      refine ⟨((host.announce path).run written).2, ?_, (hkeeps.announced written).trans himage⟩
      rw [require_ok, pure_bind, run_liftM_bind, hwritten]
      rfl

/-- A file that was created is filled and closed. -/
theorem run_writePicture {options : Options} (hkeeps : host.Keeps options.png content)
    {kernel : NoiseKernel} {colors : Option ColorMap} {pointwise : Pointwise Unit}
    (hcolors : ColorMap.ofScheme options.colors kernel.components = .ok colors)
    (hpointwise : kernel.pointwise = .ok pointwise) (hgpu : options.gpu = false)
    (hcreated : (pictureOf options kernel colors).create typesetter pointwise.toKernel ⟨0, ()⟩ =
      created) (state : ω) :
    ∃ next, (writePicture typesetter host options kernel).run.run state =
        (outcomeOf created, next) ∧ content next = some (contentOf created) := by
  unfold writePicture
  simp only [hcolors, hpointwise, hgpu, require_ok, pure_bind, Bool.false_eq_true, if_false]
  obtain ⟨opened, hopened, hempty⟩ := hkeeps.created ((host.print _).run state).2
  obtain ⟨filled, hfilled, hleft⟩ := run_fillFile hkeeps hcreated hempty
  obtain ⟨closed, hclosed, hkept⟩ := hkeeps.closed filled (by rw [hleft]; rfl)
  refine ⟨closed, ?_, hkept.trans hleft⟩
  rw [run_liftM_bind, run_liftM_bind, hopened, require_ok, pure_bind, run_liftM_bind, hfilled,
    run_liftM_bind, hclosed]
  cases created <;> rfl

/-- A run for a picture that passes all checks made before the file is created. -/
structure Accepted (options : Options) (kernel : NoiseKernel) : Prop
    extends Checked options kernel where
  colors_mem : options.colors ∈ ["default", "gray", "rgb", "heat"]
  png_ne : options.png ≠ ""
  gpu_eq : options.gpu = false
  window_eq : options.window = false

/-- The picture of a kernel under some options, or why there is none. -/
def Paints (typesetter : Typesetter) (options : Options) (kernel : NoiseKernel)
    (created : Except PictureError Raster) : Prop :=
  ∃ colors pointwise, ColorMap.ofScheme options.colors kernel.components = .ok colors ∧
    kernel.pointwise = .ok pointwise ∧
    (pictureOf options kernel colors).create typesetter pointwise.toKernel ⟨0, ()⟩ = created

/-- Whether a picture at a scale shows a part of the plane; its side is measured in single
precision. -/
def HasSide (scale : Float) : Prop := 0 < Binary32.side (Binary32.ofDouble scale)

theorem wide_pictureOf_iff (options : Options) (kernel : NoiseKernel) (colors : Option ColorMap) :
    (pictureOf options kernel colors).domain.Wide ↔ HasSide options.scale :=
  and_self_iff

end Hosted

section Accepted

variable {typesetter : Typesetter} {options : Options} {kernel : NoiseKernel}
  (haccepted : Accepted options kernel)

include haccepted

/-- The run ends as the painting of the picture does. -/
theorem run_accepted {ω : Type} {host : Host (StateM ω)} {content : ω → Option FileContent}
    (hkeeps : host.Keeps options.png content) {created : Except PictureError Raster}
    (hpaints : Paints typesetter options kernel created) (before : ω) :
    ∃ after, (run typesetter host options).run.run before = (outcomeOf created, after) ∧
      content after = some (contentOf created) := by
  obtain ⟨colors, pointwise, hcolors, hpointwise, hcreated⟩ := hpaints
  obtain ⟨texts, hrun⟩ := @run_eq_writePicture (StateM ω) _ _ _ _ haccepted.toChecked
    haccepted.png_ne haccepted.window_eq typesetter
  obtain ⟨printed, hprint⟩ := run_print host texts before
  obtain ⟨after, hwritten, hleft⟩ := run_writePicture hkeeps hcolors hpointwise haccepted.gpu_eq
    hcreated printed
  refine ⟨after, ?_, hleft⟩
  rw [hrun, ExceptT.run_bind, StateT.run_bind, hprint]
  exact hwritten

/-- Everything that a picture is painted with is there. -/
theorem exists_sources : ∃ colors pointwise f program text,
    ColorMap.ofScheme options.colors kernel.components = .ok colors ∧
      kernel.Complete pointwise f program text := by
  obtain ⟨colors, hcolors⟩ := ColorMap.exists_ofScheme haccepted.colors_mem kernel.components
  obtain ⟨pointwise, f, program, text, hcomplete⟩ :=
    NoiseKernel.exists_complete (NoiseKernel.mem_all haccepted.find_eq)
  exact ⟨colors, pointwise, f, program, text, hcolors, hcomplete⟩

theorem allocate_pictureOf (colors : Option ColorMap) :
    Raster.allocate (pictureOf options kernel colors).bounds .rgba =
      if options.size ≤ 8388608 then .ok (pictureOf options kernel colors).canvas
      else .error (if options.size ≤ 1518500249 then .longBuffer else .hugeRectangle .rgba) :=
  Raster.allocate_square haccepted.size_pos

theorem paints_of_side (hfits : options.size ≤ 8388608) (hside : HasSide options.scale)
    (hfont : options.noCaption = false → typesetter.ReadsBuiltin) :
    ∃ raster, Paints typesetter options kernel (.ok raster) := by
  obtain ⟨colors, pointwise, f, _, _, hcolors, hcomplete⟩ := exists_sources haccepted
  have hsize := haccepted.size_pos
  have hcanvas := (allocate_pictureOf haccepted colors).trans (if_pos hfits)
  have hcount : options.size * (pointwise.components : ℤ) < 2 ^ 63 := by
    have hfew := hcomplete.components_le
    have hproduct : options.size * (pointwise.components : ℤ) ≤ 8388608 * 4 := by
      gcongr
      exact_mod_cast hfew
    omega
  have hcaption : (pictureOf options kernel colors).caption ≠ "" →
      typesetter.ReadsBuiltin := by
    intro hcaption
    apply hfont
    by_contra hnone
    exact hcaption (if_pos (by simpa using hnone))
  obtain ⟨raster, hraster⟩ := Picture.exists_create hsize hsize hcanvas hcomplete.stores
    hcomplete.neverFails hcount ((wide_pictureOf_iff ..).mpr hside) rfl hcaption ⟨0, ()⟩
  exact ⟨raster, colors, pointwise, hcolors, hcomplete.pointwise_eq, hraster⟩

theorem paints_of_not_side (hfits : options.size ≤ 8388608) (hside : ¬ HasSide options.scale)
    (typesetter : Typesetter) :
    Paints typesetter options kernel (.error (.painting .emptyDomain)) := by
  obtain ⟨colors, pointwise, _, _, _, hcolors, hcomplete⟩ := exists_sources haccepted
  have hsize := haccepted.size_pos
  have hcanvas := (allocate_pictureOf haccepted colors).trans (if_pos hfits)
  exact ⟨colors, pointwise, hcolors, hcomplete.pointwise_eq,
    Picture.create_emptyDomain hsize hsize hcanvas (mt (wide_pictureOf_iff ..).mp hside) _⟩

theorem paints_of_large (hlarge : 8388608 < options.size) (typesetter : Typesetter) :
    Paints typesetter options kernel (.error (.raster
      (if options.size ≤ 1518500249 then .longBuffer else .hugeRectangle .rgba))) := by
  obtain ⟨colors, pointwise, _, _, _, hcolors, hcomplete⟩ := exists_sources haccepted
  have hsize := haccepted.size_pos
  have hcanvas := (allocate_pictureOf haccepted colors).trans (if_neg (by omega))
  exact ⟨colors, pointwise, hcolors, hcomplete.pointwise_eq,
    Picture.create_of_error hsize hsize hcanvas _⟩

end Accepted

/-- How an accepted run ends on a host that keeps its file.  It leaves the picture exactly if the
picture is not too large and its side can be told from zero in single precision.  Otherwise it fails
when the file is there already, and the file stays empty; a picture that is too large breaks the run
off. -/
theorem run_completes_iff_picture_shows {ω : Type} {host : Host (StateM ω)} {options : Options}
    {content : ω → Option FileContent} (hkeeps : host.Keeps options.png content)
    {kernel : NoiseKernel} (haccepted : Accepted options kernel) {typesetter : Typesetter}
    (hfont : options.noCaption = false → typesetter.ReadsBuiltin) (before : ω) :
    let ran := (run typesetter host options).run.run before
    let shown := ∃ a, Binary64.value? options.scale = some a ∧
      ((Binary32.leastScale : ℚ) : WithTop ℚ) ≤ a
    (options.size ≤ 8388608 → shown →
      ran.1 = .ok () ∧ status ran.1 = 0 ∧
        ∃ raster, Paints typesetter options kernel (.ok raster) ∧
          content ran.2 = some (.image raster)) ∧
    (options.size ≤ 8388608 → ¬ shown →
      ran.1 = .error (.picture (.painting .emptyDomain)) ∧ status ran.1 = 1 ∧
        content ran.2 = some .empty) ∧
    (8388608 < options.size →
      ran.1 = .error (.picture (.raster
        (if options.size ≤ 1518500249 then .longBuffer else .hugeRectangle .rgba))) ∧
        status ran.1 = 2 ∧ content ran.2 = some .empty) := by
  intro ran shown
  have hside : HasSide options.scale ↔ shown := Binary64.side_pos_iff options.scale
  rw [← hside]
  have hends {created : Except PictureError Raster}
      (hpaints : Paints typesetter options kernel created) :
      ran.1 = outcomeOf created ∧ content ran.2 = some (contentOf created) := by
    obtain ⟨after, hran, hleft⟩ := run_accepted haccepted hkeeps hpaints before
    rw [show ran = _ from hran]
    exact ⟨rfl, hleft⟩
  refine ⟨fun hfits hpositive => ?_, fun hfits hnot => ?_, fun hlarge => ?_⟩
  · obtain ⟨raster, hpaints⟩ := paints_of_side haccepted hfits hpositive hfont
    obtain ⟨houtcome, hleft⟩ := hends hpaints
    rw [houtcome]
    exact ⟨rfl, rfl, raster, hpaints, hleft⟩
  · obtain ⟨houtcome, hleft⟩ := hends (paints_of_not_side haccepted hfits hnot typesetter)
    rw [houtcome]
    exact ⟨rfl, rfl, hleft⟩
  · obtain ⟨houtcome, hleft⟩ := hends (paints_of_large haccepted hlarge typesetter)
    rw [houtcome]
    exact ⟨rfl, rfl, hleft⟩

/-- Options for a picture of one pixel. -/
def pixelOptions (scale : Float) (noCaption : Bool) : Options :=
  { png := "o", size := 1, scale := scale, noCaption := noCaption }

theorem accepted_pixelOptions {scale : Float} (hscale : ¬ scale ≤ 0) (noCaption : Bool) :
    ∃ kernel, Accepted (pixelOptions scale noCaption) kernel := by
  refine ⟨_, ⟨rfl, ?_, by norm_num [pixelOptions]⟩, by simp [pixelOptions], by simp [pixelOptions],
    rfl, rfl⟩
  rintro (hsize | hzero)
  · norm_num [pixelOptions] at hsize
  · exact hscale hzero

end Command

/-- The file that a path names in the working directory of a session is kept there. -/
theorem Session.host_keeps {path name : String} (hname : resolve path = .ok (some name))
    (elapsed : String) :
    (host elapsed).Keeps path fun session => session.files.lookup name := by
  have hstore (content : FileContent) (session : Session) :
      ∃ next, (store path content).run session = (.ok (), next) ∧
        next.files.lookup name = some content := by
    refine ⟨{ session with files := put session.files name content }, ?_, ?_⟩
    · unfold store
      rw [hname]
      rfl
    · have habsent : (session.files.filter (·.1 != name)).lookup name = none := by
        rw [List.lookup_eq_none_iff]
        intro entry hentry
        have hother : entry.1 ≠ name := by simpa using (List.mem_filter.mp hentry).2
        exact bne_iff_ne.mpr hother.symm
      rw [put, List.lookup_append, habsent]
      simp
  exact ⟨hstore .empty, fun raster session _ => hstore (.image raster) session, fun _ => rfl,
    fun session _ => ⟨session, rfl, rfl⟩⟩

theorem Session.files_ofOptions (elapsed : String) (options : Options) :
    (ofOptions elapsed options).files =
      ((Command.run Font.typesetter (host elapsed) options).run.run initial).2.files := rfl

namespace Command

/-- A scale beyond the range of single precision is no obstacle. -/
theorem run_completes_iff_picture_shows_overflow :
    let session := Session.ofOptions "T" (pixelOptions 1e300 false)
    ∃ kernel raster, Accepted (pixelOptions 1e300 false) kernel ∧
      Paints Font.typesetter (pixelOptions 1e300 false) kernel (.ok raster) ∧
      session.files.lookup "o" = some (.image raster) := by
  intro session
  obtain ⟨kernel, haccepted⟩ := @accepted_pixelOptions 1e300 (by decide +kernel) false
  have hname : Session.resolve (pixelOptions 1e300 false).png = .ok (some "o") := by decide +kernel
  have hside : HasSide (pixelOptions 1e300 false).scale := by
    unfold HasSide
    decide +kernel
  obtain ⟨hcompletes, -, -⟩ := run_completes_iff_picture_shows (Session.host_keeps hname "T")
    haccepted (fun _ => ⟨_, rfl⟩ : _ → Font.typesetter.ReadsBuiltin) Session.initial
  obtain ⟨-, -, raster, hpaints, hleft⟩ :=
    hcompletes (by decide) ((Binary64.side_pos_iff (pixelOptions 1e300 false).scale).mp hside)
  refine ⟨kernel, raster, haccepted, hpaints, ?_⟩
  unfold session
  rw [Session.files_ofOptions]
  exact hleft

/-- A scale that is accepted and leaves an empty file. -/
theorem accepted_scale_leaves_empty_file :
    let session := Session.ofOptions "T" (pixelOptions 1e-46 true)
    (∃ kernel, Accepted (pixelOptions 1e-46 true) kernel) ∧
      session.status = 1 ∧ session.failure = "empty render domain" ∧
      session.files.lookup "o" = some .empty := by
  intro session
  obtain ⟨kernel, haccepted⟩ := @accepted_pixelOptions 1e-46 (by decide +kernel) true
  have hname : Session.resolve (pixelOptions 1e-46 true).png = .ok (some "o") := by decide +kernel
  have hside : ¬ HasSide 1e-46 := by
    unfold HasSide
    decide +kernel
  have hpaints := paints_of_not_side haccepted (by decide) hside Font.typesetter
  obtain ⟨after, hran, hleft⟩ :=
    run_accepted haccepted (Session.host_keeps hname "T") hpaints Session.initial
  refine ⟨⟨kernel, haccepted⟩, ?_⟩
  simp only [session, Session.ofOptions, hran]
  exact ⟨rfl, rfl, hleft⟩

end Command

end NoiseShader
