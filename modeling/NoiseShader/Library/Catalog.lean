import NoiseShader.Library.Kernels
import NoiseShader.Program.Basic

/-!
# The shader library

The library holds every definition of the noise kernels once, each after the
definitions it calls.
-/

namespace NoiseShader.Library

open Text (quoted)

def kernelNames : List String := ["cellular", "perlin", "gradient", "simplex", "white"]

/-- All definitions.  The lists of the kernels share only equal definitions, so
that their merge never fails. -/
def definitions : List Definition :=
  ((mergeDefinitions [cellular, perlin, gradient, simplex, white]).toOption).getD []

/-- The definitions of the library that the roots reach. -/
def referenced (roots : List Node) : Except UnknownNode (List Definition) :=
  reachable definitions roots

inductive KernelProgramError where
  | unknownKernel (name : String)
  | unknownNode (cause : UnknownNode)
  | program (cause : ProgramError)
deriving DecidableEq, Repr

def KernelProgramError.message : KernelProgramError → String
  | .unknownKernel name => "unknown noise kernel " ++ quoted name
  | .unknownNode cause => cause.message
  | .program cause => cause.message

/-- The program whose entry is the named kernel, with the helpers it needs. -/
def kernelProgram (name : String) : Except KernelProgramError Program :=
  if name ∉ kernelNames then .error (.unknownKernel name)
  else
    match definitions.find? (·.name == name) with
    | none => .error (.unknownKernel name)
    | some kernel =>
      match reachable definitions [kernel.toNode] with
      | .error cause => .error (.unknownNode cause)
      | .ok helpers =>
        match Program.create kernel.toNode helpers with
        | .error cause => .error (.program cause)
        | .ok program => .ok program

end NoiseShader.Library
