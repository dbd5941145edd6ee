import NoiseShader.Library.Catalog
import NoiseShader.Proofs.Program.Merging

/-!
# What the shader library holds

The lists of the kernels share only equal definitions, all definitions can be
written, and their names have distinct fingerprints.  So the library is the list
of the definitions in the order of their first occurrence, and a kernel comes with
the definitions in front of it that it reaches.
-/

namespace NoiseShader.Library

def contents : List Definition :=
  [mod289v2, mod289v3, mod7v3, permutev3, cellularColumn, cellularKernel, mod289v4, permutev4,
    taylorInvSqrtv4, fadev2, perlinKernel, gradHash, gradientKernel, taylorInvSqrtv3,
    simplexKernel, whiteKernel]

theorem mem_contents {definition : Definition}
    (hmember : definition ∈ [cellular, perlin, gradient, simplex, white].flatten) :
    definition ∈ contents := by
  have hall : ∀ definition ∈ [cellular, perlin, gradient, simplex, white].flatten,
      definition ∈ contents := by
    simp [cellular, perlin, gradient, simplex, white, contents]
  exact hall definition hmember

theorem contents_render {definition : Definition} (hmember : definition ∈ contents) :
    definition.toNode.render.isOk = true := by
  have hall : contents.all (·.toNode.render.isOk) = true := rfl
  exact List.all_eq_true.mp hall definition hmember

theorem contents_name_ne {definition : Definition} (hmember : definition ∈ contents) :
    definition.name ≠ "" := by
  have hall : contents.all (·.name != "") = true := rfl
  simpa using List.all_eq_true.mp hall definition hmember

theorem nodup_nameMark_contents : (contents.map Definition.nameMark).Nodup := by
  decide

theorem contents_eq_of_nameMark {definition other : Definition}
    (hmember : definition ∈ contents) (hother : other ∈ contents)
    (hmark : definition.nameMark = other.nameMark) : definition = other :=
  List.inj_on_of_nodup_map nodup_nameMark_contents hmember hother hmark

theorem contents_eq_of_name {definition other : Definition}
    (hmember : definition ∈ contents) (hother : other ∈ contents)
    (hname : definition.name = other.name) : definition = other := by
  apply contents_eq_of_nameMark hmember hother
  rw [Definition.nameMark, Definition.nameMark, hname]

theorem collisionless_contents : Collisionless contents where
  writable _ := contents_render
  names _ hmember _ hother hmark := by rw [contents_eq_of_nameMark hmember hother hmark]
  sources _ hmember _ hother hname _ := by rw [contents_eq_of_name hmember hother hname]

theorem consistent_contents : Consistent contents where
  named _ := contents_name_ne
  agree _ hmember _ hother hname := by rw [contents_eq_of_name hmember hother hname]

theorem definitions_eq : definitions = contents := by
  have hsubset : [cellular, perlin, gradient, simplex, white].flatten ⊆ contents :=
    fun _ => mem_contents
  have hmerge := (mergeDefinitions_eq_ok_iff (collisionless_contents.subset hsubset)).mpr
    ⟨consistent_contents.subset hsubset, rfl⟩
  unfold definitions
  rw [hmerge]
  rfl

/-- The program of a kernel, from what the kernel reaches. -/
theorem kernelProgram_eq {name : String} {kernel : Definition} {helpers : List Definition}
    (hname : name ∈ kernelNames) (hfind : contents.find? (·.name == name) = some kernel)
    (hreachable : reachable contents [kernel.toNode] = .ok helpers)
    (hcreate : Program.create kernel.toNode helpers = .ok ⟨helpers, kernel.toNode⟩) :
    kernelProgram name = .ok ⟨helpers, kernel.toNode⟩ := by
  unfold kernelProgram
  rw [if_neg (not_not_intro hname), definitions_eq, hfind]
  simp only [hreachable, hcreate]

end NoiseShader.Library
