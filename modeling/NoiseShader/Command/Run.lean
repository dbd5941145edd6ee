import NoiseShader.Command.Options
import NoiseShader.Image.Picture
import NoiseShader.Kernel.Registry
import NoiseShader.Program.Stage

/-!
# The command

The command prints the source of a noise kernel, writes its picture to a file, or
both.  What it does to the outside goes through a `Host`, so that the same run can
be performed on a terminal and recorded as a value.  What was done before a
failure stands.
-/

namespace NoiseShader

/-- The content of a file left behind. -/
inductive FileContent where
  | empty
  | image (raster : Raster)
deriving DecidableEq, Repr

/-- What a run asks of the place where it runs.  A file operation that fails
answers with the reason. -/
structure Host (m : Type → Type) where
  print : String → m Unit
  /-- Creates a file, or empties the one that is there. -/
  createFile : String → m (Except String Unit)
  writeImage : String → Raster → m (Except String Unit)
  closeFile : String → m (Except String Unit)
  /-- Tells that a picture was written, and how long it took. -/
  announce : String → m Unit

/-- The line that tells where a picture was written and how long it took. -/
def announcement (path elapsed : String) : String :=
  "PNG file rendered to " ++ path ++ " in " ++ elapsed ++ "\n"

inductive CommandError where
  | kernel (cause : NoiseKernel.Error)
  | badSize
  | badInvocations
  | kernelProgram (cause : Library.KernelProgramError)
  | unwritable (cause : RenderError)
  | compute (cause : ComputeError)
  | colors (cause : ColorMapError)
  | pointwise (cause : KernelError)
  | device (cause : EvaluationError)
  | file (reason : String)
  | picture (cause : PictureError)
  | noWindow
deriving DecidableEq, Repr

def CommandError.message : CommandError → String
  | .kernel cause => cause.message
  | .badSize => "size and scale must be positive"
  | .badInvocations => "compute invocation size must be positive"
  | .kernelProgram cause => cause.message
  | .unwritable cause => cause.message
  | .compute cause => cause.message
  | .colors cause => cause.message
  | .pointwise cause => cause.message
  | .device cause => cause.message
  | .file reason => reason
  | .picture cause => cause.message
  | .noWindow => "require cgo for UI rendering"

/-- Whether a run breaks off instead of reporting its failure. -/
def CommandError.breaksOff : CommandError → Bool
  | .unwritable _ => true
  | .compute (.unwritable _) => true
  | .pointwise _ => true
  | .picture (.raster _) => true
  | .picture (.painting (.evaluation .overrun)) => true
  | _ => false

/-- The last line of a run that failed. -/
def CommandError.report (cause : CommandError) : String :=
  if cause.breaksOff then "panic: " ++ cause.message else cause.message

namespace Command

/-- The status at the end of a run. -/
def status : Except CommandError Unit → Nat
  | .ok () => 0
  | .error cause => if cause.breaksOff then 2 else 1

variable {m : Type → Type} [Monad m]

def require {ε α : Type} (cause : ε → CommandError) (result : Except ε α) :
    ExceptT CommandError m α :=
  match result with
  | .ok value => pure value
  | .error e => throw (cause e)

/-- The text under a picture. -/
def captionText (kernel : NoiseKernel) (scale : Float) : String :=
  kernel.name ++ "  scale=" ++
    match Number.Format.binary64.decode scale.toBits.toNat with
    | .notANumber => "NaN"
    | .infinite negative => if negative then "-Inf" else "+Inf"
    | .finite negative significand exponent =>
      (if negative then "-" else "") ++
        (Number.Format.binary64.shortest significand exponent).general

/-- The square around the origin that a picture shows. -/
def domainOf (scale : Float) : Domain :=
  let half := Number.Binary32.ofDouble scale / 2
  ⟨⟨-half, -half⟩, ⟨half, half⟩⟩

def pictureOf (options : Options) (kernel : NoiseKernel) (colors : Option ColorMap) : Picture :=
  { width := options.size
    height := options.size
    domain := domainOf options.scale
    colors := colors
    caption := if options.noCaption then "" else captionText kernel options.scale
    captioner := none }

/-- Paints a picture into a file that was created, and tells of it. -/
def fillFile (typesetter : Typesetter) (host : Host m) (path : String) (picture : Picture)
    (kernel : Pointwise Unit) : ExceptT CommandError m Unit := do
  let raster ← require .picture (picture.create typesetter kernel.toKernel ⟨0, ()⟩)
  require .file (← host.writeImage path raster)
  host.announce path

/-- Writes the picture of a kernel.  The file exists from before the picture is
painted, and is closed in any case; whether it could be closed matters only when
nothing else failed. -/
def writePicture (typesetter : Typesetter) (host : Host m) (options : Options)
    (kernel : NoiseKernel) : ExceptT CommandError m Unit := do
  let colors ← require .colors (ColorMap.ofScheme options.colors kernel.components)
  let pointwise ← require .pointwise kernel.pointwise
  if options.gpu then require .device Device.start
  else host.print "GPU usage not enabled (-gpu flag). Enable for faster rendering\n"
  require .file (← host.createFile options.png)
  let picture := pictureOf options kernel colors
  let filled ← liftM (m := m) (fillFile typesetter host options.png picture pointwise).run
  let closed ← host.closeFile options.png
  require id filled
  require .file closed

/-- Runs the command. -/
def run (typesetter : Typesetter) (host : Host m) (options : Options) :
    ExceptT CommandError m Unit := do
  let kernel ← require .kernel (NoiseKernel.find options.kernel)
  if options.size ≤ 0 ∨ options.scale ≤ 0 then throw .badSize
  if options.invocations < 1 then throw .badInvocations
  let silent := !options.glsl && !options.compute && options.png == "" && !options.window
  let program ← require .kernelProgram kernel.program
  if options.glsl || silent then
    host.print ((← require .unwritable program.render) ++ "\n")
  if options.compute then
    let (source, _) ← require .compute (program.computeShader ⟨options.invocations⟩)
    host.print source
  if options.png ≠ "" then writePicture typesetter host options kernel
  if options.window then throw .noWindow

end Command

end NoiseShader
