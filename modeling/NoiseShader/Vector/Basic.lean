import NoiseShader.Number.Binary32

/-!
# Vectors of two, three and four components

The three vector types are records over any type of component, so that the same
formula can be read over rounded and over exact numbers.  What they share is a
class of component-wise access, and the shading language's vector functions are
stated once over that class.

Two rules depend on the number of components.  The component-wise minimum and
maximum of two vectors order signed zeros and pass on what is not a number for
two and three components, and only compare for four; against a single number
they only compare at every size.
-/

namespace NoiseShader

structure Vec2 (α : Type) where
  x : α
  y : α
deriving DecidableEq, Repr

structure Vec3 (α : Type) where
  x : α
  y : α
  z : α
deriving DecidableEq, Repr

structure Vec4 (α : Type) where
  x : α
  y : α
  z : α
  w : α
deriving DecidableEq, Repr

/-- A fixed positive number of components of one type, in order. -/
class Components (V : Type → Type) where
  arity : Nat
  map {α β : Type} : (α → β) → V α → V β
  zipWith {α β γ : Type} : (α → β → γ) → V α → V β → V γ
  replicate {α : Type} : α → V α
  toList {α : Type} : V α → List α
  /-- The components joined from the first to the last. -/
  reduce {α : Type} : (α → α → α) → V α → α

instance : Components Vec2 where
  arity := 2
  map f v := ⟨f v.x, f v.y⟩
  zipWith f a b := ⟨f a.x b.x, f a.y b.y⟩
  replicate c := ⟨c, c⟩
  toList v := [v.x, v.y]
  reduce f v := f v.x v.y

instance : Components Vec3 where
  arity := 3
  map f v := ⟨f v.x, f v.y, f v.z⟩
  zipWith f a b := ⟨f a.x b.x, f a.y b.y, f a.z b.z⟩
  replicate c := ⟨c, c, c⟩
  toList v := [v.x, v.y, v.z]
  reduce f v := f (f v.x v.y) v.z

instance : Components Vec4 where
  arity := 4
  map f v := ⟨f v.x, f v.y, f v.z, f v.w⟩
  zipWith f a b := ⟨f a.x b.x, f a.y b.y, f a.z b.z, f a.w b.w⟩
  replicate c := ⟨c, c, c, c⟩
  toList v := [v.x, v.y, v.z, v.w]
  reduce f v := f (f (f v.x v.y) v.z) v.w

namespace Vec

open Components (map zipWith reduce)
open Number

variable {V : Type → Type} [Components V] {α : Type}

/-- The vector with the same number in every component. -/
def splat (c : α) : V α := Components.replicate c

def add [Add α] (a b : V α) : V α := zipWith (· + ·) a b

def sub [Sub α] (a b : V α) : V α := zipWith (· - ·) a b

def mul [Mul α] (a b : V α) : V α := zipWith (· * ·) a b

def div [Div α] (a b : V α) : V α := zipWith (· / ·) a b

def addScalar [Add α] (v : V α) (c : α) : V α := map (· + c) v

def subScalar [Sub α] (v : V α) (c : α) : V α := map (· - c) v

def scalarSub [Sub α] (c : α) (v : V α) : V α := map (c - ·) v

def mulScalar [Mul α] (v : V α) (c : α) : V α := map (· * c) v

def divScalar [Div α] (v : V α) (c : α) : V α := map (· / c) v

/-- The sum of the component products, from the first to the last. -/
def dot [Add α] [Mul α] (a b : V α) : α := reduce (· + ·) (mul a b)

def length (v : V Float32) : Float32 := (dot v v).sqrt

def floor (v : V Float32) : V Float32 := map Binary32.floor v

def fraction (v : V Float32) : V Float32 := map Binary32.fraction v

def sqrt (v : V Float32) : V Float32 := map Float32.sqrt v

def abs (v : V Float32) : V Float32 := map Float32.abs v

def minimum (a b : V Float32) : V Float32 :=
  if Components.arity V ≤ 3 then zipWith Binary32.minimum a b else zipWith Binary32.lesser a b

def maximum (a b : V Float32) : V Float32 :=
  if Components.arity V ≤ 3 then zipWith Binary32.maximum a b else zipWith Binary32.greater a b

def minimumScalar (v : V Float32) (c : Float32) : V Float32 := map (Binary32.lesser · c) v

def maximumScalar (v : V Float32) (c : Float32) : V Float32 := map (Binary32.greater · c) v

/-- The weighted mean of two vectors with a weight for each component. -/
def mix (a b weight : V Float32) : V Float32 :=
  add (zipWith (fun x w => x * (1 - w)) a weight) (mul b weight)

/-- The weighted mean of two vectors with one weight. -/
def mixScalar (a b : V Float32) (weight : Float32) : V Float32 :=
  zipWith (Binary32.mix · · weight) a b

def step (edge v : V Float32) : V Float32 := zipWith Binary32.step edge v

def modulo (v : V Float32) (modulus : Float32) : V Float32 := map (Binary32.modulo · modulus) v

/-- The components, followed by zeros up to four. -/
def padded (v : V Float32) : List Float32 :=
  Components.toList v ++ List.replicate (4 - Components.arity V) 0

end Vec

end NoiseShader
