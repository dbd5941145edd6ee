import NoiseShader.Kernel.Basic
import Std.Data.HashMap

/-!
# Kernels with a cache

A cache stands in front of a kernel and keeps the values of every position the
kernel was asked for.  The values stand one after the other in a store, and a map
tells for each position where its values begin.

A batch is answered in two passes over the buffer.  The first copies what is known
from the store and notes the positions that are not, with their places in the
batch.  These are forwarded to the kernel together, in order and with repetitions.
The second pass appends the results of new positions to the store and copies all
results to their places.  Nothing is counted or kept for a batch that fails, but
the values found in the cache are in the buffer by then.

The forwarded batch is evaluated into a work buffer that lives as long as the
cache.  It holds zeros at first and otherwise what earlier batches left in it.
-/

namespace NoiseShader.Cached

variable {σ : Type}

structure State (σ : Type) where
  /-- Where in the store the values of a position begin. -/
  known : Std.HashMap Point Nat
  store : Array Float32
  work : List Float32
  hits : Nat
  evaluations : Nat
  inner : σ

def State.initial (inner : σ) : State σ := ⟨∅, #[], [], 0, 0, inner⟩

/-- Forgets values and counts. -/
def State.reset (state : State σ) : State σ :=
  { state with known := ∅, store := #[], hits := 0, evaluations := 0 }

/-- The `count` values that begin at an offset. -/
def slice (values : Array Float32) (offset count : Nat) : List Float32 :=
  (values.extract offset (offset + count)).toList

/-- Copies a block over the values that begin at an offset. -/
def copyAt : Array Float32 → Nat → List Float32 → Array Float32
  | values, _, [] => values
  | values, offset, value :: rest => copyAt (values.setIfInBounds offset value) (offset + 1) rest

/-- A position that is not known, with its place in the batch. -/
structure Miss where
  position : Point
  place : Nat
deriving DecidableEq, Repr

/-- The first pass, from a place of the batch on: the buffer with what is known, and
the rest. -/
def lookUp (state : State σ) (components : Nat) :
    List Point → (place : Nat) → Array Float32 → Array Float32 × List Miss
  | [], _, values => (values, [])
  | position :: rest, place, values =>
    match state.known[position]? with
    | some offset =>
      let block := slice state.store offset components
      lookUp state components rest (place + 1) (copyAt values (place * components) block)
    | none =>
      let (filled, missed) := lookUp state components rest (place + 1) values
      (filled, ⟨position, place⟩ :: missed)

/-- What the second pass works on: the cache and the buffer. -/
structure Filling where
  known : Std.HashMap Point Nat
  store : Array Float32
  values : Array Float32

/-- Keeps the result of a forwarded position unless there is one, and copies it to its
place. -/
def Filling.add (filling : Filling) (components : Nat) (miss : Miss) (block : List Float32) :
    Filling :=
  let values := copyAt filling.values (miss.place * components) block
  if filling.known.contains miss.position then { filling with values := values }
  else
    { known := filling.known.insert miss.position filling.store.size
      store := filling.store ++ block
      values := values }

/-- The second pass, from one of the forwarded positions on. -/
def fillIn (components : Nat) (results : Array Float32) :
    List Miss → (index : Nat) → Filling → Filling
  | [], _, filling => filling
  | miss :: rest, index, filling =>
    fillIn components results rest (index + 1)
      (filling.add components miss (slice results (index * components) components))

/-- The part of the work buffer that a batch of `length` values is given. -/
def workspace (work : List Float32) (length : Nat) : List Float32 :=
  work.take length ++ List.replicate (length - work.length) 0

def evaluate (kernel : Kernel σ) (positions : List Point) (values : List Float32)
    (state : State σ) : Evaluation (State σ) :=
  match checkRoom positions values kernel.components with
  | .error e => ⟨.error e, values, state⟩
  | .ok () =>
    let components := kernel.components.toNat
    let (filled, missed) := lookUp state components positions 0 values.toArray
    if missed = [] then
      ⟨.ok (), filled.toList,
        { state with
          hits := state.hits + positions.length
          evaluations := state.evaluations + positions.length }⟩
    else
      let space := workspace state.work (missed.length * components)
      let result := kernel.evaluate (missed.map (·.position)) space state.inner
      let work := result.values ++ state.work.drop space.length
      match result.outcome with
      | .error e =>
        ⟨.error e, filled.toList, { state with work := work, inner := result.state }⟩
      | .ok () =>
        let filling :=
          fillIn components result.values.toArray missed 0 ⟨state.known, state.store, filled⟩
        ⟨.ok (), filling.values.toList,
          { known := filling.known
            store := filling.store
            work := work
            hits := state.hits + (positions.length - missed.length)
            evaluations := state.evaluations + positions.length
            inner := result.state }⟩

/-- The kernel with a cache in front. -/
def wrap (kernel : Kernel σ) : Kernel (State σ) := ⟨kernel.components, evaluate kernel⟩

inductive Error where
  | absentKernel
deriving DecidableEq, Repr

def Error.message : Error → String
  | .absentKernel => "nil kernel"

/-- A cache in front of a kernel, if there is one. -/
def create (kernel : Option (Kernel σ)) : Except Error (Kernel (State σ)) :=
  match kernel with
  | none => .error .absentKernel
  | some kernel => .ok (wrap kernel)

end NoiseShader.Cached
