import NoiseShader.Command.Run
import NoiseShader.Image.Font

/-!
# Sessions

A session is a run of the command in a working directory without entries.  It
records what is printed, the files that are left and the status at the end.
-/

namespace NoiseShader

structure Session where
  output : String
  failure : String
  files : List (String × FileContent)
  status : Nat

namespace Session

def initial : Session := ⟨"", "", [], 0⟩

/-- The longest name of a file and the longest path, in bytes. -/
def longestName : Nat := 255

def longestPath : Nat := 4095

/-- Whether a step of a path leads to a directory that exists. -/
def isDirectory (step : String) : Bool := step == "." || step == ".."

/-- The names of a path, without the slashes between them. -/
def steps (path : String) : List String :=
  let runs := path.toList.splitBy fun a b => a != '/' && b != '/'
  (runs.filter (· ≠ ['/'])).map String.ofList

/-- Whether a path leads out of the working directory. -/
def leadsOutside (path : String) : Bool :=
  path.startsWith "/" || (steps path).contains ".."

/-- The file that a path names in a directory without entries, or why it names
none.  A file outside the directory can be written as well, but has no name there. -/
def resolve (path : String) : Except String (Option String) :=
  let failure (reason : String) : Except String (Option String) :=
    .error ("open " ++ path ++ ": " ++ reason)
  let file := (steps path).getLast?.getD "."
  if longestPath < path.utf8ByteSize then failure "file name too long"
  else
    match (steps path).dropLast.find? (!isDirectory ·) with
    | some folder =>
      if longestName < folder.utf8ByteSize then failure "file name too long"
      else failure "no such file or directory"
    | none =>
      if isDirectory file || path.endsWith "/" then failure "is a directory"
      else if longestName < file.utf8ByteSize then failure "file name too long"
      else .ok (if leadsOutside path then none else some file)

def put (files : List (String × FileContent)) (name : String) (content : FileContent) :
    List (String × FileContent) :=
  files.filter (·.1 != name) ++ [(name, content)]

def store (path : String) (content : FileContent) : StateM Session (Except String Unit) := do
  match resolve path with
  | .error reason => return .error reason
  | .ok none => return .ok ()
  | .ok (some name) =>
    modify fun session => { session with files := put session.files name content }
    return .ok ()

def write (text : String) : StateM Session Unit :=
  modify fun session => { session with output := session.output ++ text }

/-- Records what a run does.  Each picture takes the time `elapsed`. -/
def host (elapsed : String) : Host (StateM Session) where
  print := write
  createFile path := store path .empty
  writeImage path raster := store path (.image raster)
  closeFile _ := pure (.ok ())
  announce path := write (announcement path elapsed)

/-- The session of a run. -/
def ofOptions (elapsed : String) (options : Options) : Session :=
  let (outcome, session) := (Command.run Font.typesetter (host elapsed) options).run.run initial
  let failure :=
    match outcome with
    | .ok () => ""
    | .error cause => cause.report
  { session with failure := failure, status := Command.status outcome }

/-- The session of the command with the given arguments. -/
def ofArguments (elapsed : String) (arguments : List String) : Session :=
  match Options.parse arguments with
  | .error .helpWanted => { initial with failure := Options.usage }
  | .error cause =>
    { initial with failure := cause.message ++ "\n" ++ Options.usage, status := 2 }
  | .ok options => ofOptions elapsed options

end Session

end NoiseShader
