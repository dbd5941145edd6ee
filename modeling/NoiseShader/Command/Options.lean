import NoiseShader.Command.Numeral
import NoiseShader.Text.Quoted

/-!
# Options of the command

Options are given as flags, one or two hyphens in front, with their value after an
equals sign or in the next argument.  Switches take a value only after an equals
sign.  Flags end at the first argument that is none, or after two hyphens.
-/

namespace NoiseShader

open Text (quoted)

structure Options where
  kernel : String := "perlin"
  glsl : Bool := false
  compute : Bool := false
  png : String := ""
  size : Int := 512
  scale : Float := 8
  window : Bool := false
  gpu : Bool := false
  invocations : Int := 32
  noCaption : Bool := false
  colors : String := "default"

inductive OptionsError where
  | badSyntax (argument : String)
  | undefinedFlag (name : String)
  | missingValue (name : String)
  | badValue (value name : String) (cause : Numeral.Error)
  | badSwitch (value name : String) (cause : Numeral.Error)
  | helpWanted
deriving DecidableEq, Repr

def OptionsError.message : OptionsError → String
  | .badSyntax argument => "bad flag syntax: " ++ argument
  | .undefinedFlag name => "flag provided but not defined: -" ++ name
  | .missingValue name => "flag needs an argument: -" ++ name
  | .badValue value name cause =>
    "invalid value " ++ quoted value ++ " for flag -" ++ name ++ ": " ++ cause.message
  | .badSwitch value name cause =>
    "invalid boolean value " ++ quoted value ++ " for -" ++ name ++ ": " ++ cause.message
  | .helpWanted => "flag: help requested"

/-- How a flag changes the options, by the kind of its value. -/
inductive Setter where
  | text (set : String → Options → Options)
  | integer (set : Int → Options → Options)
  | real (set : Float → Options → Options)
  | switch (set : Bool → Options → Options)

namespace Options

def setters : List (String × Setter) :=
  [("kernel", .text fun value options => { options with kernel := value }),
    ("glsl", .switch fun value options => { options with glsl := value }),
    ("compute", .switch fun value options => { options with compute := value }),
    ("png", .text fun value options => { options with png := value }),
    ("size", .integer fun value options => { options with size := value }),
    ("scale", .real fun value options => { options with scale := value }),
    ("window", .switch fun value options => { options with window := value }),
    ("gpu", .switch fun value options => { options with gpu := value }),
    ("invoc", .integer fun value options => { options with invocations := value }),
    ("nocaption", .switch fun value options => { options with noCaption := value }),
    ("colors", .text fun value options => { options with colors := value })]

/-- The description of all flags. -/
def usage : String :=
  "Usage of glnoise:\n" ++
  "  -colors string\n    \tPNG color scheme: default, gray, rgb, heat (default \"default\")\n" ++
  "  -compute\n    \tPrint kernel compute shader in glgl combined format\n" ++
  "  -glsl\n    \tPrint kernel program GLSL source\n" ++
  "  -gpu\n    \tEvaluate PNG render on the GPU (requires cgo)\n" ++
  "  -invoc int\n    \tCompute shader local work group size (default 32)\n" ++
  "  -kernel string\n    \tNoise kernel: cellular, perlin, gradient, simplex, white " ++
  "(default \"perlin\")\n" ++
  "  -nocaption\n    \tOmit caption on rendered PNG\n" ++
  "  -png string\n    \tRender kernel to PNG file\n" ++
  "  -scale float\n    \tKernel domain width spanned by the image (default 8)\n" ++
  "  -size int\n    \tImage or window size in pixels (default 512)\n" ++
  "  -window\n    \tOpen live GPU preview window (requires cgo)\n"

/-- An argument taken apart. -/
inductive Argument where
  | plain
  | terminator
  | malformed
  | flag (name : String) (value : Option String)
deriving DecidableEq, Repr

/-- The name and the value of a flag.  An equals sign cannot be the first letter. -/
def splitFlag (letters : List Char) : Argument :=
  let rest := letters.drop 1
  let name := letters.take 1 ++ rest.takeWhile (· ≠ '=')
  match rest.dropWhile (· ≠ '=') with
  | [] => .flag (String.ofList name) none
  | _ :: value => .flag (String.ofList name) (some (String.ofList value))

def Argument.ofFlagText (letters : List Char) : Argument :=
  match letters with
  | [] => .malformed
  | first :: _ => if first = '-' ∨ first = '=' then .malformed else splitFlag letters

def Argument.ofText (argument : String) : Argument :=
  match argument.toList with
  | ['-'] => .plain
  | ['-', '-'] => .terminator
  | '-' :: '-' :: letters => Argument.ofFlagText letters
  | '-' :: letters => Argument.ofFlagText letters
  | _ => .plain

/-- The options after a flag with a value. -/
def Setter.apply (setter : Setter) (name value : String) (options : Options) :
    Except OptionsError Options :=
  match setter with
  | .text set => .ok (set value options)
  | .integer set =>
    match Numeral.readInteger value with
    | .ok number => .ok (set number options)
    | .error cause => .error (.badValue value name cause)
  | .real set =>
    match Numeral.readReal value with
    | .ok number => .ok (set number options)
    | .error cause => .error (.badValue value name cause)
  | .switch set =>
    match Numeral.readSwitch value with
    | .ok on => .ok (set on options)
    | .error cause => .error (.badSwitch value name cause)

/-- The options after the remaining arguments. -/
def parseFrom (options : Options) : List String → Except OptionsError Options
  | [] => .ok options
  | argument :: rest =>
    match Argument.ofText argument with
    | .plain => .ok options
    | .terminator => .ok options
    | .malformed => .error (.badSyntax argument)
    | .flag name value =>
      match setters.lookup name, value with
      | none, _ =>
        if name = "help" ∨ name = "h" then .error .helpWanted else .error (.undefinedFlag name)
      | some setter, some value => do
        parseFrom (← Setter.apply setter name value options) rest
      | some (.switch set), none => parseFrom (set true options) rest
      | some setter, none =>
        match rest with
        | [] => .error (.missingValue name)
        | value :: remaining => do
          parseFrom (← Setter.apply setter name value options) remaining

def parse (arguments : List String) : Except OptionsError Options := parseFrom {} arguments

end Options

end NoiseShader
