import NoiseShader.Kernel.Basic
import NoiseShader.Text.Quoted

/-!
# Kernels that evaluate one position at a time

A function of position yields the values to be stored from the first component
on.  Components it yields nothing for keep what the buffer held before.
-/

namespace NoiseShader

open Number (intText)
open Text (quoted)

/-- A function of position that may count or remember in a state. -/
abbrev PointFunction (σ : Type) := Vec2 Float32 → StateM σ (List Float32)

inductive KernelError where
  | absentFunction
  | badComponents (name : String) (components : Int)
deriving DecidableEq, Repr

def KernelError.message : KernelError → String
  | .absentFunction => "nil kernel function"
  | .badComponents name components =>
    "kernel " ++ quoted name ++ " components must be in 1..4, got " ++ intText components

structure Pointwise (σ : Type) where
  name : String
  components : Nat
  function : PointFunction σ

namespace Pointwise

variable {σ : Type}

/-- The number of positions evaluated so far and the state of the function. -/
structure State (σ : Type) where
  evaluations : Nat
  inner : σ

def create (name : String) (components : Int) (function : Option (PointFunction σ)) :
    Except KernelError (Pointwise σ) :=
  match function with
  | none => .error .absentFunction
  | some function =>
    if components < 1 ∨ 4 < components then .error (.badComponents name components)
    else .ok ⟨name, components.toNat, function⟩

/-- Calls the function at every position and puts the values it yields into the
buffer.  Where it yields more values than there are components, those that fit are
in the buffer when the evaluation fails, and later positions are not reached. -/
def store (kernel : Pointwise σ) : List Point → List Float32 → σ → Evaluation σ
  | [], values, state => ⟨.ok (), values, state⟩
  | position :: rest, values, state =>
    let (yielded, next) := (kernel.function position.toVec).run state
    let kept := (values.take kernel.components).drop yielded.length
    let block := yielded.take kernel.components ++ kept
    let remaining := values.drop kernel.components
    if kernel.components < yielded.length then ⟨.error .overrun, block ++ remaining, next⟩
    else
      let following := store kernel rest remaining next
      { following with values := block ++ following.values }

/-- Evaluates a batch.  Its positions are counted if all of them were evaluated. -/
def evaluate (kernel : Pointwise σ) (positions : List Point) (values : List Float32)
    (state : State σ) : Evaluation (State σ) :=
  match checkRoom positions values kernel.components with
  | .error e => ⟨.error e, values, state⟩
  | .ok () =>
    let result := store kernel positions values state.inner
    let counted :=
      match result.outcome with
      | .ok () => positions.length
      | .error _ => 0
    ⟨result.outcome, result.values, ⟨state.evaluations + counted, result.state⟩⟩

def toKernel (kernel : Pointwise σ) : Kernel (State σ) := ⟨kernel.components, kernel.evaluate⟩

end Pointwise

end NoiseShader
