import NoiseShader.Kernel.Pointwise
import NoiseShader.Library.Catalog
import NoiseShader.Noise.Cellular
import NoiseShader.Noise.Gradient
import NoiseShader.Noise.Hash
import NoiseShader.Noise.Perlin
import NoiseShader.Noise.Simplex

/-!
# Named noise kernels

A noise kernel has a name, a number of components and a function of position.
Under the same name the shader library holds a program that computes it.
-/

namespace NoiseShader

open Text (quoted)

structure NoiseKernel where
  name : String
  components : Int
  function : Option (Vec2 Float32 → List Float32)

namespace NoiseKernel

inductive Error where
  | unknown (name : String)
deriving DecidableEq, Repr

def Error.message : Error → String
  | .unknown name => "unknown kernel " ++ quoted name

/-- A kernel without name, components or function. -/
def blank : NoiseKernel := ⟨"", 0, none⟩

def all : List NoiseKernel :=
  [⟨"cellular", 2, some fun p => Components.toList (Noise.cellular p)⟩,
    ⟨"perlin", 1, some fun p => [Noise.perlin p]⟩,
    ⟨"gradient", 3, some fun p => Components.toList (Noise.gradient p)⟩,
    ⟨"simplex", 1, some fun p => [Noise.simplex p]⟩,
    ⟨"white", 3, some fun p => Components.toList (Noise.white p)⟩]

def find (name : String) : Except Error NoiseKernel :=
  match all.find? (·.name == name) with
  | some kernel => .ok kernel
  | none => .error (.unknown name)

/-- The kernel as one that evaluates position by position. -/
def pointwise (kernel : NoiseKernel) : Except KernelError (Pointwise Unit) :=
  Pointwise.create kernel.name kernel.components
    (kernel.function.map fun function p => pure (function p))

/-- The shader program of the kernel. -/
def program (kernel : NoiseKernel) : Except Library.KernelProgramError Program :=
  Library.kernelProgram kernel.name

end NoiseKernel

end NoiseShader
