import NoiseShader.Command.Elapsed
import NoiseShader.Command.Run
import NoiseShader.Image.Font
import NoiseShader.Image.Png

/-!
# The command line

Runs the command on the standard output and in the working directory, and reports
a failure on the standard error output.
-/

namespace NoiseShader.Console

/-- Writes a file, or tells why that fails. -/
def writeFile (path : String) (bytes : List UInt8) : IO (Except String Unit) := do
  let failure (reason : String) : Except String Unit := .error ("open " ++ path ++ ": " ++ reason)
  try
    IO.FS.writeBinFile path ⟨bytes.toArray⟩
    return .ok ()
  catch
    | .noFileOrDirectory .. => return failure "no such file or directory"
    | .permissionDenied .. => return failure "permission denied"
    | .inappropriateType .. => return failure "is a directory"
    | problem => return failure (toString problem)

/-- Prints to the standard output and writes files.  A picture takes the time since
its file was created. -/
def host (start : IO.Ref Nat) : Host IO where
  print text := do
    IO.print text
    (← IO.getStdout).flush
  createFile path := do
    start.set (← IO.monoNanosNow)
    writeFile path []
  writeImage path raster := writeFile path (Png.encode raster)
  closeFile _ := return .ok ()
  announce path := do
    let stop ← IO.monoNanosNow
    IO.print (announcement path (Elapsed.text ⟨stop - (← start.get)⟩))

end NoiseShader.Console

open NoiseShader in
def main (arguments : List String) : IO UInt32 := do
  match Options.parse arguments with
  | .error .helpWanted =>
    IO.eprint Options.usage
    return 0
  | .error cause =>
    IO.eprintln cause.message
    IO.eprint Options.usage
    return 2
  | .ok options =>
    let start ← IO.mkRef 0
    let outcome ← (Command.run Font.typesetter (Console.host start) options).run
    if let .error cause := outcome then IO.eprintln cause.report
    return UInt32.ofNat (Command.status outcome)
