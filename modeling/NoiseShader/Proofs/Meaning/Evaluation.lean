import NoiseShader.Program.Basic
import Mathlib.Tactic

/-!
# What definitions compute

A reference semantics for the definitions of the shading language that use single
precision numbers and vectors of them.  Statements run in order over variables,
which are the parameters of the definition and what it declares; a call binds the
parameters of the called definition to the values of its arguments.  Operators
work component by component, and a number next to a vector stands for the vector
with the number in every component.  A built-in function is the function of that
name over numbers or over vectors, as its arguments ask for.

Everything that can go wrong is a failure: a name that is not known, a value of
the wrong shape, a missing result, and calls nested more deeply than allowed.  A
variable that is declared without a value holds the number `fill` in every
component, so what a definition computes must not depend on `fill`.

Two numbers are equal when their words agree; there is one number that is not a
number.
-/

namespace NoiseShader.Meaning

open Number

inductive Value where
  | bool (value : Bool)
  | float (value : Float32)
  | vec2 (value : Vec2 Float32)
  | vec3 (value : Vec3 Float32)
  | vec4 (value : Vec4 Float32)

inductive Failure where
  | missingVariable (name : String)
  | missingFunction (name : String)
  | wrongArguments (function : String)
  | wrongOperands (operator : String)
  | wrongSelection (pattern : String)
  | wrongCondition
  | wrongType (type : String)
  | notExecutable
  | missingResult
  | tooDeep

namespace Value

def type : Value → String
  | bool _ => "bool"
  | float _ => "float"
  | vec2 _ => "vec2"
  | vec3 _ => "vec3"
  | vec4 _ => "vec4"

/-- The numbers that a value is made of; a truth value has none. -/
def components : Value → List Float32
  | bool _ => []
  | float x => [x]
  | vec2 v => Components.toList v
  | vec3 v => Components.toList v
  | vec4 v => Components.toList v

def ofComponents : List Float32 → Option Value
  | [x] => some (float x)
  | [x, y] => some (vec2 ⟨x, y⟩)
  | [x, y, z] => some (vec3 ⟨x, y, z⟩)
  | [x, y, z, w] => some (vec4 ⟨x, y, z, w⟩)
  | _ => none

/-- A value of a type with one number in every component. -/
def filled (fill : Float32) (type : String) : Option Value :=
  if type = "float" then some (float fill)
  else if type = "vec2" then some (vec2 (Vec.splat fill))
  else if type = "vec3" then some (vec3 (Vec.splat fill))
  else if type = "vec4" then some (vec4 (Vec.splat fill))
  else none

/-- Two values joined component by component, a number next to a vector taken for every
component. -/
def combine (f : Float32 → Float32 → Float32) : Value → Value → Option Value
  | float x, float y => some (float (f x y))
  | float x, vec2 w => some (vec2 (Components.map (f x ·) w))
  | float x, vec3 w => some (vec3 (Components.map (f x ·) w))
  | float x, vec4 w => some (vec4 (Components.map (f x ·) w))
  | vec2 v, float y => some (vec2 (Components.map (f · y) v))
  | vec3 v, float y => some (vec3 (Components.map (f · y) v))
  | vec4 v, float y => some (vec4 (Components.map (f · y) v))
  | vec2 v, vec2 w => some (vec2 (Components.zipWith f v w))
  | vec3 v, vec3 w => some (vec3 (Components.zipWith f v w))
  | vec4 v, vec4 w => some (vec4 (Components.zipWith f v w))
  | _, _ => none

/-- The vector that the components of values make one after another; a single number fills it. -/
def construct (arity : ℕ) (values : List Value) : Option Value :=
  match values with
  | [float x] => ofComponents (List.replicate arity x)
  | _ =>
    if (values.flatMap components).length = arity ∧ ∀ value ∈ values, value.components ≠ [] then
      ofComponents (values.flatMap components)
    else none

def select (value : Value) (selection : Swizzle) : Option Value :=
  if value.components.length = selection.arity then
    ofComponents (selection.indices.filterMap (value.components[·]?))
  else none

/-- A vector with the components that a selection names replaced, each of them once. -/
def replace (value : Value) (selection : Swizzle) (part : Value) : Option Value :=
  if value.components.length = selection.arity ∧
      part.components.length = selection.indices.length ∧ selection.indices.Nodup then
    ofComponents ((selection.indices.zip part.components).foldl
      (fun components entry => components.set entry.1 entry.2) value.components)
  else none

end Value

/-! ## Built-in functions -/

def each (scalar : Float32 → Float32)
    (vector : {V : Type → Type} → [Components V] → V Float32 → V Float32) :
    List Value → Option Value
  | [.float x] => some (.float (scalar x))
  | [.vec2 v] => some (.vec2 (vector v))
  | [.vec3 v] => some (.vec3 (vector v))
  | [.vec4 v] => some (.vec4 (vector v))
  | _ => none

def product : List Value → Option Value
  | [.vec2 v, .vec2 w] => some (.float (Vec.dot v w))
  | [.vec3 v, .vec3 w] => some (.float (Vec.dot v w))
  | [.vec4 v, .vec4 w] => some (.float (Vec.dot v w))
  | _ => none

def mean : List Value → Option Value
  | [.float x, .float y, .float weight] => some (.float (Binary32.mix x y weight))
  | [.vec2 v, .vec2 w, .float weight] => some (.vec2 (Vec.mixScalar v w weight))
  | [.vec3 v, .vec3 w, .float weight] => some (.vec3 (Vec.mixScalar v w weight))
  | [.vec4 v, .vec4 w, .float weight] => some (.vec4 (Vec.mixScalar v w weight))
  | [.vec2 v, .vec2 w, .vec2 weight] => some (.vec2 (Vec.mix v w weight))
  | [.vec3 v, .vec3 w, .vec3 weight] => some (.vec3 (Vec.mix v w weight))
  | [.vec4 v, .vec4 w, .vec4 weight] => some (.vec4 (Vec.mix v w weight))
  | _ => none

/-- A minimum or a maximum, which is another function for every shape of its arguments. -/
def extremum (scalar : Float32 → Float32 → Float32)
    (vector : {V : Type → Type} → [Components V] → V Float32 → V Float32 → V Float32)
    (mixed : {V : Type → Type} → [Components V] → V Float32 → Float32 → V Float32) :
    List Value → Option Value
  | [.float x, .float y] => some (.float (scalar x y))
  | [.vec2 v, .vec2 w] => some (.vec2 (vector v w))
  | [.vec3 v, .vec3 w] => some (.vec3 (vector v w))
  | [.vec4 v, .vec4 w] => some (.vec4 (vector v w))
  | [.vec2 v, .float y] => some (.vec2 (mixed v y))
  | [.vec3 v, .float y] => some (.vec3 (mixed v y))
  | [.vec4 v, .float y] => some (.vec4 (mixed v y))
  | _ => none

def builtins : List (String × (List Value → Option Value)) :=
  [("vec2", Value.construct 2), ("vec3", Value.construct 3), ("vec4", Value.construct 4),
    ("floor", each Binary32.floor Vec.floor), ("fract", each Binary32.fraction Vec.fraction),
    ("abs", each Float32.abs Vec.abs), ("sqrt", each Float32.sqrt Vec.sqrt), ("dot", product),
    ("mix", mean), ("min", extremum Binary32.minimum Vec.minimum Vec.minimumScalar),
    ("max", extremum Binary32.maximum Vec.maximum Vec.maximumScalar)]

def arithmetic : List (String × (Float32 → Float32 → Float32)) :=
  [("+", (· + ·)), ("-", (· - ·)), ("*", (· * ·)), ("/", (· / ·))]

def comparisons : List (String × (Float32 → Float32 → Bool)) :=
  [("<", fun x y => decide (x < y)), (">", fun x y => decide (y < x))]

def applyOperator (operator : String) (left right : Value) : Option Value :=
  match arithmetic.lookup operator with
  | some f => Value.combine f left right
  | none =>
    match comparisons.lookup operator, left, right with
    | some compare, .float x, .float y => some (.bool (compare x y))
    | _, _, _ => none

/-! ## Expressions and statements -/

/-- The variables of a running definition, those declared last in front. -/
abbrev Scope := List (String × Value)

/-- What a call of a function with some arguments gives. -/
abbrev Calls := String → List Value → Except Failure Value

def orFail (failure : Failure) : Option Value → Except Failure Value
  | some value => .ok value
  | none => .error failure

def Scope.read (scope : Scope) (name : String) : Except Failure Value :=
  orFail (.missingVariable name) (scope.lookup name)

def Scope.write (name : String) (value : Value) : Scope → Except Failure Scope
  | [] => .error (.missingVariable name)
  | (key, old) :: rest =>
    if key = name then
      if value.type = old.type then .ok ((key, value) :: rest) else .error (.wrongType old.type)
    else (Scope.write name value rest).map ((key, old) :: ·)

mutual

def evaluate (calls : Calls) (scope : Scope) : Node → Except Failure Value
  | .literal (.float x) => .ok (.float x)
  | .literal (.bool b) => .ok (.bool b)
  | .identifier name => scope.read name
  | .call name arguments => do
    let values ← evaluateAll calls scope arguments
    match builtins.lookup name with
    | some builtin => orFail (.wrongArguments name) (builtin values)
    | none => calls name values
  | .binary operator left right => do
    let leftValue ← evaluate calls scope left
    let rightValue ← evaluate calls scope right
    orFail (.wrongOperands operator) (applyOperator operator leftValue rightValue)
  | .conditional condition whenTrue whenFalse => do
    match ← evaluate calls scope condition with
    | .bool b => if b then evaluate calls scope whenTrue else evaluate calls scope whenFalse
    | _ => .error .wrongCondition
  | .swizzle operand selection => do
    let value ← evaluate calls scope operand
    orFail (.wrongSelection selection.pattern) (value.select selection)
  | _ => .error .notExecutable

def evaluateAll (calls : Calls) (scope : Scope) :
    List Node → Except Failure (List Value)
  | [] => .ok []
  | node :: rest => do
    let value ← evaluate calls scope node
    let values ← evaluateAll calls scope rest
    return value :: values

end

/-- The value that a declared variable starts with. -/
def startValue (calls : Calls) (fill : Float32) (scope : Scope) (type : String) (node : Node) :
    Except Failure Value :=
  if node.isAbsent then orFail (.wrongType type) (Value.filled fill type)
  else evaluate calls scope node

def update (calls : Calls) (fill : Float32) (scope : Scope) :
    Node → Except Failure Scope
  | .declaration type name node => do
    let value ← startValue calls fill scope type node
    if value.type = type then return (name, value) :: scope else throw (.wrongType type)
  | .assignment (.identifier name) node => do
    let value ← evaluate calls scope node
    scope.write name value
  | .assignment (.swizzle (.identifier name) selection) node => do
    let part ← evaluate calls scope node
    let old ← scope.read name
    let value ← orFail (.wrongSelection selection.pattern) (old.replace selection part)
    scope.write name value
  | _ => .error .notExecutable

def execute (calls : Calls) (fill : Float32) : Scope → List Node → Except Failure Value
  | _, [] => .error .missingResult
  | scope, .result node :: _ => evaluate calls scope node
  | scope, statement :: rest => do
    let scope ← update calls fill scope statement
    execute calls fill scope rest

def bindParameters (function : String) :
    List Parameter → List Value → Except Failure Scope
  | [], [] => .ok []
  | parameter :: parameters, value :: values =>
    if value.type = parameter.type then
      (bindParameters function parameters values).map ((parameter.name, value) :: ·)
    else .error (.wrongType parameter.type)
  | _, _ => .error (.wrongArguments function)

def applyDefinition (calls : Calls) (fill : Float32) (definition : Definition)
    (arguments : List Value) : Except Failure Value := do
  let scope ← bindParameters definition.name definition.parameters arguments
  let value ← execute calls fill scope definition.body
  if value.type = definition.returnType then return value
  else throw (.wrongType definition.returnType)

/-- Calls of the definitions of a program, nested at most `depth` deep. -/
def invoke (definitions : List Definition) (fill : Float32) : (depth : ℕ) → Calls
  | 0, _, _ => .error .tooDeep
  | depth + 1, name, arguments =>
    match definitions.find? (·.name == name) with
    | none => .error (.missingFunction name)
    | some definition => applyDefinition (invoke definitions fill depth) fill definition arguments

/-- The result of the function that a program enters. -/
def run (program : Program) (fill : Float32) (depth : ℕ) (arguments : List Value) :
    Except Failure Value :=
  match program.main.asFunction? with
  | none => .error .notExecutable
  | some main => applyDefinition (invoke program.definitions fill depth) fill main arguments

/-! ## Rules -/

theorem bind_eq_ok {ε α β : Type} {x : Except ε α} {f : α → Except ε β} {b : β} :
    (x >>= f) = .ok b ↔ ∃ a, x = .ok a ∧ f a = .ok b := by
  cases x with
  | error e => simp [bind, Except.bind]
  | ok a => simp [bind, Except.bind]

theorem orFail_eq_ok {failure : Failure} {outcome : Option Value} {value : Value} :
    orFail failure outcome = .ok value ↔ outcome = some value := by
  cases outcome with
  | none => simp [orFail]
  | some result => simp [orFail]

section Rules

variable {calls : Calls} {fill : Float32} {scope : Scope}

theorem evaluate_call {function : String} {arguments : List Node} {values : List Value}
    {value : Value} (hbuiltin : builtins.lookup function = none)
    (harguments : evaluateAll calls scope arguments = .ok values)
    (hcall : calls function values = .ok value) :
    evaluate calls scope (.call function arguments) = .ok value := by
  refine bind_eq_ok.mpr ⟨values, harguments, ?_⟩
  rw [hbuiltin]
  exact hcall

/-- A choice between two vectors of two components by a comparison. -/
theorem evaluate_choice {condition whenTrue whenFalse : Node} {x y : Float32}
    {v w : Vec2 Float32}
    (hcondition : evaluate calls scope condition = .ok (.bool (decide (x < y))))
    (htrue : evaluate calls scope whenTrue = .ok (.vec2 v))
    (hfalse : evaluate calls scope whenFalse = .ok (.vec2 w)) :
    evaluate calls scope (.conditional condition whenTrue whenFalse) =
      .ok (.vec2 (if x < y then v else w)) := by
  refine bind_eq_ok.mpr ⟨_, hcondition, ?_⟩
  by_cases hless : x < y
  · simp [hless, htrue]
  · simp [hless, hfalse]

theorem execute_declaration {type name : String} {node : Node} {v : Value} {rest : List Node}
    (hvalue : startValue calls fill scope type node = .ok v) (htype : v.type = type) :
    execute calls fill scope (.declaration type name node :: rest) =
      execute calls fill ((name, v) :: scope) rest := by
  have hupdate : update calls fill scope (.declaration type name node) =
      .ok ((name, v) :: scope) := by
    refine bind_eq_ok.mpr ⟨v, hvalue, ?_⟩
    rw [if_pos htype]
    rfl
  rw [execute, hupdate]
  · rfl
  · simp

theorem execute_assignment {s : Scope} {target node : Node} {rest : List Node}
    (hupdate : update calls fill scope (.assignment target node) = .ok s) :
    execute calls fill scope (.assignment target node :: rest) = execute calls fill s rest := by
  rw [execute, hupdate]
  · rfl
  · simp

theorem applyDefinition_eq_ok {definition : Definition} {arguments : List Value} {s : Scope}
    {value : Value}
    (hscope : bindParameters definition.name definition.parameters arguments = .ok s)
    (hbody : execute calls fill s definition.body = .ok value)
    (htype : value.type = definition.returnType) :
    applyDefinition calls fill definition arguments = .ok value := by
  refine bind_eq_ok.mpr ⟨s, hscope, bind_eq_ok.mpr ⟨value, hbody, ?_⟩⟩
  rw [if_pos htype]
  rfl

end Rules

end NoiseShader.Meaning
