import NoiseShader.Noise.Cellular
import NoiseShader.Noise.Gradient
import NoiseShader.Noise.Hash
import NoiseShader.Noise.Perlin
import NoiseShader.Noise.Simplex
import NoiseShader.Proofs.Library.Contents
import NoiseShader.Proofs.Meaning.Agreement
import NoiseShader.Proofs.Number.Word
import NoiseShader.Proofs.Program.Naming

/-!
# Shader kernels compute the noise functions

Each definition of the library has a meaning among the noise functions and their
helpers.  Definitions without branches compute their meaning by evaluation alone:
the statements and the function apply the same operations to the same numbers in
the same order.  Where a statement chooses between two vectors, the two sides are
compared at the choice.

The programs of the five kernels therefore compute the five noise functions, to
the last bit and at every position.
-/

namespace NoiseShader.Meaning

open Number

variable {calls : Calls} {fill : Float32}

/-! ## Helpers -/

def onVector (type : String)
    (f : {V : Type → Type} → [Components V] → V Float32 → V Float32) : List Value → Option Value
  | [.vec2 v] => if type = "vec2" then some (.vec2 (f v)) else none
  | [.vec3 v] => if type = "vec3" then some (.vec3 (f v)) else none
  | [.vec4 v] => if type = "vec4" then some (.vec4 (f v)) else none
  | _ => none

def onPoint (f : Vec2 Float32 → Value) : List Value → Option Value
  | [.vec2 p] => some (f p)
  | _ => none

def onColumn (f : Float32 → Vec2 Float32 → Float32 → Value) : List Value → Option Value
  | [.float hash, .vec2 offset, .float shift] => some (f hash offset shift)
  | _ => none

theorem onVector_cases {type : String}
    {f : {V : Type → Type} → [Components V] → V Float32 → V Float32} {values : List Value}
    {value : Value} (h : onVector type f values = some value) :
    (∃ v, type = "vec2" ∧ values = [.vec2 v] ∧ value = .vec2 (f v)) ∨
      (∃ v, type = "vec3" ∧ values = [.vec3 v] ∧ value = .vec3 (f v)) ∨
      ∃ v, type = "vec4" ∧ values = [.vec4 v] ∧ value = .vec4 (f v) := by
  unfold onVector at h
  split at h
  next v =>
    split_ifs at h with htype
    exact .inl ⟨v, htype, rfl, (Option.some.inj h).symm⟩
  next v =>
    split_ifs at h with htype
    exact .inr (.inl ⟨v, htype, rfl, (Option.some.inj h).symm⟩)
  next v =>
    split_ifs at h with htype
    exact .inr (.inr ⟨v, htype, rfl, (Option.some.inj h).symm⟩)
  next => cases h

theorem onPoint_cases {f : Vec2 Float32 → Value} {values : List Value} {value : Value}
    (h : onPoint f values = some value) : ∃ p, values = [.vec2 p] ∧ value = f p := by
  unfold onPoint at h
  split at h
  next p => exact ⟨p, rfl, (Option.some.inj h).symm⟩
  next => cases h

theorem onColumn_cases {f : Float32 → Vec2 Float32 → Float32 → Value} {values : List Value}
    {value : Value} (h : onColumn f values = some value) :
    ∃ hash offset shift, values = [.float hash, .vec2 offset, .float shift] ∧
      value = f hash offset shift := by
  unfold onColumn at h
  split at h
  next hash offset shift => exact ⟨hash, offset, shift, rfl, (Option.some.inj h).symm⟩
  next => cases h

theorem reduction_computes (type function : String) (modulus : Float32) :
    Entry.Computes ⟨Library.reduction type function modulus, onVector type (Noise.reduce modulus)⟩
      calls fill := by
  intro values value h
  obtain ⟨v, rfl, rfl, rfl⟩ | ⟨v, rfl, rfl, rfl⟩ | ⟨v, rfl, rfl, rfl⟩ :=
    onVector_cases (f := Noise.reduce modulus) h
  all_goals rfl

theorem inverseSqrt_computes (type function : String) :
    Entry.Computes ⟨Library.inverseSqrt type function, onVector type Noise.inverseSqrt⟩
      calls fill := by
  intro values value h
  obtain ⟨v, rfl, rfl, rfl⟩ | ⟨v, rfl, rfl, rfl⟩ | ⟨v, rfl, rfl, rfl⟩ :=
    onVector_cases (f := Noise.inverseSqrt) h
  all_goals rfl

theorem permutation_computes {type reduce : String} (function : String)
    (hbuiltin : builtins.lookup reduce = none)
    (hreduce : ∀ ⦃values value⦄, onVector type Noise.mod289 values = some value →
      calls reduce values = .ok value) :
    Entry.Computes ⟨Library.permutation type function reduce, onVector type Noise.permute⟩
      calls fill := by
  intro values value h
  obtain ⟨v, rfl, rfl, rfl⟩ | ⟨v, rfl, rfl, rfl⟩ | ⟨v, rfl, rfl, rfl⟩ :=
    onVector_cases (f := Noise.permute) h
  all_goals
    refine applyDefinition_eq_ok rfl (evaluate_call hbuiltin rfl (hreduce ?_)) rfl
    rfl

theorem fade_computes :
    Entry.Computes ⟨Library.fadev2, onPoint fun t => .vec2 (Noise.fade t)⟩ calls fill := by
  intro values value h
  obtain ⟨t, rfl, rfl⟩ := onPoint_cases h
  rfl

/-- The definition subtracts one where the function adds its opposite. -/
theorem gradHash_computes :
    Entry.Computes ⟨Library.gradHash, onPoint fun p => .vec2 (Noise.latticeGradient p)⟩
      calls fill := by
  intro values value h
  obtain ⟨p, rfl, rfl⟩ := onPoint_cases h
  have hshift : ∀ v : Vec2 Float32, Vec.addScalar v (-1) = Vec.subScalar v 1 := by
    intro v
    change (⟨v.x + -1, v.y + -1⟩ : Vec2 Float32) = ⟨v.x - 1, v.y - 1⟩
    rw [Binary32.sub_one_eq, Binary32.sub_one_eq]
  unfold Noise.latticeGradient
  rw [hshift]
  rfl

/-! ## Libraries of the kernels -/

/-- The helpers of the cellular kernel, the last one first. -/
def cellularHelpers : List Entry :=
  [⟨Library.cellularColumn, onColumn fun hash offset shift =>
      .vec3 (Noise.cellularColumn hash offset shift)⟩,
    ⟨Library.permutev3, onVector "vec3" Noise.permute⟩,
    ⟨Library.mod7v3, onVector "vec3" Noise.mod7⟩,
    ⟨Library.mod289v3, onVector "vec3" Noise.mod289⟩,
    ⟨Library.mod289v2, onVector "vec2" Noise.mod289⟩]

def perlinHelpers : List Entry :=
  [⟨Library.fadev2, onPoint fun t => .vec2 (Noise.fade t)⟩,
    ⟨Library.taylorInvSqrtv4, onVector "vec4" Noise.inverseSqrt⟩,
    ⟨Library.permutev4, onVector "vec4" Noise.permute⟩,
    ⟨Library.mod289v4, onVector "vec4" Noise.mod289⟩]

def gradientHelpers : List Entry :=
  [⟨Library.gradHash, onPoint fun p => .vec2 (Noise.latticeGradient p)⟩]

def simplexHelpers : List Entry :=
  [⟨Library.taylorInvSqrtv3, onVector "vec3" Noise.inverseSqrt⟩,
    ⟨Library.permutev3, onVector "vec3" Noise.permute⟩,
    ⟨Library.mod289v3, onVector "vec3" Noise.mod289⟩,
    ⟨Library.mod289v2, onVector "vec2" Noise.mod289⟩]

theorem cellularHelpers_sound : Sound fill cellularHelpers := by
  refine ⟨?_, ?_, reduction_computes .., reduction_computes .., reduction_computes .., trivial⟩
  · intro values value h
    obtain ⟨hash, offset, shift, rfl, rfl⟩ := onColumn_cases h
    rfl
  · exact permutation_computes _ rfl fun values value h => orFail_eq_ok.mpr h

theorem perlinHelpers_sound : Sound fill perlinHelpers :=
  ⟨fade_computes, inverseSqrt_computes ..,
    permutation_computes _ rfl fun _ _ h => orFail_eq_ok.mpr h, reduction_computes .., trivial⟩

theorem gradientHelpers_sound : Sound fill gradientHelpers := ⟨gradHash_computes, trivial⟩

theorem simplexHelpers_sound : Sound fill simplexHelpers :=
  ⟨inverseSqrt_computes .., permutation_computes _ rfl fun _ _ h => orFail_eq_ok.mpr h,
    reduction_computes .., reduction_computes .., trivial⟩

/-! ## Kernels

The first three kernels run straight through, and evaluation turns both sides into
one expression over the coordinates.
-/

theorem whiteKernel_computes (p : Vec2 Float32) :
    applyDefinition (meaningOf []) fill Library.whiteKernel [.vec2 p] =
      .ok (.vec3 (Noise.white p)) :=
  rfl

theorem perlinKernel_computes (p : Vec2 Float32) :
    applyDefinition (meaningOf perlinHelpers) fill Library.perlinKernel [.vec2 p] =
      .ok (.float (Noise.perlin p)) :=
  rfl

theorem gradientKernel_computes (p : Vec2 Float32) :
    applyDefinition (meaningOf gradientHelpers) fill Library.gradientKernel [.vec2 p] =
      .ok (.vec3 (Noise.gradient p)) :=
  rfl

theorem simplexKernel_computes (p : Vec2 Float32) :
    applyDefinition (meaningOf simplexHelpers) fill Library.simplexKernel [.vec2 p] =
      .ok (.float (Noise.simplex p)) := by
  unfold Noise.simplex
  extract_lets c cell x0 i1
  refine applyDefinition_eq_ok (s := [("v", .vec2 p)]) rfl ?_ rfl
  refine (execute_declaration (v := .vec4 c) rfl rfl).trans ?_
  refine (execute_declaration (v := .vec2 cell) rfl rfl).trans ?_
  refine (execute_declaration (v := .vec2 x0) rfl rfl).trans ?_
  refine (execute_declaration (v := .vec2 i1) ?_ rfl).trans ?_
  · exact evaluate_choice rfl rfl rfl
  · rfl

/-- The variables of the cellular kernel while the distances are sorted. -/
def cellularScope (p cell offset : Vec2 Float32) (columns d1 d2 d3 first : Vec3 Float32) : Scope :=
  [("d1a", .vec3 first), ("d3", .vec3 d3), ("d2", .vec3 d2), ("d1", .vec3 d1),
    ("px", .vec3 columns), ("Pf", .vec2 offset), ("Pi", .vec2 cell), ("P", .vec2 p)]

/-- The statements after the seventh sort the distances. -/
theorem execute_twoSmallest (p cell offset : Vec2 Float32) (columns d1 d2 d3 : Vec3 Float32) :
    execute calls fill (cellularScope p cell offset columns d1 d2 d3 (Vec.minimum d1 d2))
        (Library.cellularKernel.body.drop 7) =
      .ok (.vec2 (Vec.sqrt (Noise.twoSmallest d1 d2 d3))) := by
  unfold Noise.twoSmallest
  extract_lets first second low high ordered lowest rest
  change execute calls fill (cellularScope p cell offset columns low high d3 first)
    (Library.cellularKernel.body.drop 11) = _
  -- Each exchange assigns the two components in one of two orders.
  refine (execute_assignment
    (s := cellularScope p cell offset columns ordered high d3 first) ?_).trans ?_
  · refine bind_eq_ok.mpr ⟨_, evaluate_choice rfl rfl rfl, ?_⟩
    by_cases hless : low.x < low.y
    · rw [if_pos hless, show ordered = _ from if_pos hless]
      rfl
    · rw [if_neg hless, show ordered = _ from if_neg hless]
      rfl
  refine (execute_assignment
    (s := cellularScope p cell offset columns lowest high d3 first) ?_).trans ?_
  · refine bind_eq_ok.mpr ⟨_, evaluate_choice rfl rfl rfl, ?_⟩
    by_cases hless : ordered.x < ordered.z
    · rw [if_pos hless, show lowest = _ from if_pos hless]
      rfl
    · rw [if_neg hless, show lowest = _ from if_neg hless]
      rfl
  rfl

theorem cellularKernel_computes (p : Vec2 Float32) :
    applyDefinition (meaningOf cellularHelpers) fill Library.cellularKernel [.vec2 p] =
      .ok (.vec2 (Noise.cellular p)) := by
  unfold Noise.cellular
  extract_lets cell offset columns d1 d2 d3
  refine applyDefinition_eq_ok (s := [("P", .vec2 p)]) rfl ?_ rfl
  refine (execute_declaration (v := .vec2 cell) rfl rfl).trans ?_
  refine (execute_declaration (v := .vec2 offset) rfl rfl).trans ?_
  refine (execute_declaration (v := .vec3 columns) rfl rfl).trans ?_
  refine (execute_declaration (v := .vec3 d1) rfl rfl).trans ?_
  refine (execute_declaration (v := .vec3 d2) rfl rfl).trans ?_
  refine (execute_declaration (v := .vec3 d3) rfl rfl).trans ?_
  refine (execute_declaration (v := .vec3 (Vec.minimum d1 d2)) rfl rfl).trans ?_
  exact execute_twoSmallest p cell offset columns d1 d2 d3

/-! ## Programs -/

/-- The program of a kernel computes a function of the position, whatever variables without a
value hold, once calls may be nested as deeply as the program has definitions. -/
def ProgramComputes (name : String) (noise : Vec2 Float32 → Value) : Prop :=
  ∃ program, Library.kernelProgram name = .ok program ∧
    ∀ (fill : Float32) (depth : ℕ) (p : Vec2 Float32), program.definitions.length ≤ depth →
      run program fill depth [.vec2 p] = .ok (noise p)

theorem programComputes_of_helpers {name : String} {kernel : Definition} {helpers : List Entry}
    {noise : Vec2 Float32 → Value} (hname : name ∈ Library.kernelNames)
    (hfind : Library.contents.find? (·.name == name) = some kernel)
    (hreachable : reachable Library.contents [kernel.toNode] =
      .ok (helpers.reverse.map Entry.definition))
    (hcreate : Program.create kernel.toNode (helpers.reverse.map Entry.definition) =
      .ok ⟨helpers.reverse.map Entry.definition, kernel.toNode⟩)
    (hdistinct : DistinctNames (helpers.reverse.map Entry.definition))
    (hsound : ∀ fill, Sound fill helpers)
    (hkernel : ∀ fill p, applyDefinition (meaningOf helpers) fill kernel [.vec2 p] =
      .ok (noise p)) :
    ProgramComputes name noise := by
  refine ⟨_, Library.kernelProgram_eq hname hfind hreachable hcreate, ?_⟩
  intro fill depth p hdepth
  refine (hsound fill).run_eq ?_ ?_ (hkernel fill p)
  · intro entry hentry
    apply hdistinct.find?_name
    exact List.mem_map_of_mem (List.mem_reverse.mpr hentry)
  · simpa using hdepth

theorem kernels_compute_noise :
    ProgramComputes "cellular" (fun p => .vec2 (Noise.cellular p)) ∧
      ProgramComputes "perlin" (fun p => .float (Noise.perlin p)) ∧
      ProgramComputes "gradient" (fun p => .vec3 (Noise.gradient p)) ∧
      ProgramComputes "simplex" (fun p => .float (Noise.simplex p)) ∧
      ProgramComputes "white" (fun p => .vec3 (Noise.white p)) := by
  refine ⟨?_, ?_, ?_, ?_, ?_⟩
  · exact programComputes_of_helpers (by decide) rfl rfl rfl (by decide)
      (fun fill => cellularHelpers_sound) (fun fill => cellularKernel_computes)
  · exact programComputes_of_helpers (by decide) rfl rfl rfl (by decide)
      (fun fill => perlinHelpers_sound) (fun fill => perlinKernel_computes)
  · exact programComputes_of_helpers (by decide) rfl rfl rfl (by decide)
      (fun fill => gradientHelpers_sound) (fun fill => gradientKernel_computes)
  · exact programComputes_of_helpers (by decide) rfl rfl rfl (by decide)
      (fun fill => simplexHelpers_sound) (fun fill => simplexKernel_computes)
  · exact @programComputes_of_helpers _ _ [] _ (by decide) rfl rfl rfl (by decide)
      (fun fill => trivial) (fun fill => whiteKernel_computes)

end NoiseShader.Meaning
