import NoiseShader.Number.Decimal
import NoiseShader.Vector.Basic

/-!
# Kernels

A kernel evaluates a function of position over a batch of positions, and stores
a fixed number of components for each of them into a buffer of values.  It may
keep a state between batches.  An evaluation gives back the buffer as the kernel
left it, also when the evaluation failed.

A position is kept as the two words of its coordinates, so that positions are the
same only if they agree bit for bit.

No graphics device is available to this library, so that neither starting a device
nor evaluating on one can succeed.
-/

namespace NoiseShader

open Number (natText intText)

structure Point where
  x : UInt32
  y : UInt32
deriving DecidableEq, Hashable, Repr

namespace Point

def toVec (p : Point) : Vec2 Float32 := ⟨Float32.ofBits p.x, Float32.ofBits p.y⟩

def ofVec (v : Vec2 Float32) : Point := ⟨v.x.toBits, v.y.toBits⟩

end Point

/-- An integer as a machine word of 64 bits with a sign keeps it. -/
def machineInt (n : Int) : Int := n.bmod 0x10000000000000000

theorem machineInt_eq {n : Int} (hnonneg : 0 ≤ n) (hlt : n < 0x8000000000000000) :
    machineInt n = n :=
  Int.bmod_eq_of_le (by omega) (by omega)

inductive EvaluationError where
  | emptyBuffers
  | lengthMismatch (positions : Nat) (components : Int) (values : Nat)
  /-- A function stored more values than its kernel has components. -/
  | overrun
  | noDevice
  | reported (text : String)
deriving DecidableEq, Repr

def EvaluationError.message : EvaluationError → String
  | .emptyBuffers => "empty buffers"
  | .lengthMismatch positions components values =>
    "position and result buffer length mismatch: " ++ natText positions ++ " positions need " ++
      intText (machineInt (positions * components)) ++ " values for " ++ intText components ++
      " components, got " ++ natText values
  | .overrun => "more values stored than components"
  | .noDevice => "GPU evaluation requires CGo and is not supported on TinyGo"
  | .reported text => text

/-- What an evaluation leaves behind. -/
structure Evaluation (σ : Type) where
  outcome : Except EvaluationError Unit
  values : List Float32
  state : σ

structure Kernel (σ : Type) where
  components : Int
  evaluate : List Point → List Float32 → σ → Evaluation σ

/-- The check that a buffer has room for exactly the values of a batch, as far as their number is
a machine word. -/
def checkRoom (positions : List Point) (values : List Float32) (components : Int) :
    Except EvaluationError Unit :=
  if positions = [] then .error .emptyBuffers
  else if (values.length : Int) ≠ machineInt (positions.length * components) then
    .error (.lengthMismatch positions.length components values.length)
  else .ok ()

namespace Device

/-- Starts the device. -/
def start : Except EvaluationError Unit := .error .noDevice

/-- The kernel of a device that was never started. -/
def kernel : Kernel Unit := ⟨0, fun _ values state => ⟨.error .noDevice, values, state⟩⟩

/-- The number of positions evaluated on the device. -/
def evaluations : Nat := 0

end Device

end NoiseShader
