import NoiseShader.Syntax.Node
import Mathlib.Tactic

/-!
# Definitions found by name

Among definitions with distinct names a name finds the definition that has it.
-/

namespace NoiseShader

def DistinctNames (definitions : List Definition) : Prop :=
  (definitions.map Definition.name).Nodup

instance (definitions : List Definition) : Decidable (DistinctNames definitions) :=
  inferInstanceAs (Decidable (definitions.map Definition.name).Nodup)

theorem DistinctNames.sublist {definitions kept : List Definition}
    (hdistinct : DistinctNames definitions) (hkept : kept.Sublist definitions) :
    DistinctNames kept :=
  List.Nodup.sublist (hkept.map Definition.name) hdistinct

theorem DistinctNames.eq_of_name {definitions : List Definition}
    (hdistinct : DistinctNames definitions) {definition other : Definition}
    (hmember : definition ∈ definitions) (hother : other ∈ definitions)
    (hname : definition.name = other.name) : definition = other :=
  List.inj_on_of_nodup_map hdistinct hmember hother hname

theorem mem_of_find?_name {definitions : List Definition} {name : String} {found : Definition}
    (hfind : definitions.find? (·.name == name) = some found) :
    found ∈ definitions ∧ found.name = name := by
  refine ⟨List.mem_of_find?_eq_some hfind, ?_⟩
  simpa using List.find?_some hfind

theorem exists_find?_name {definitions : List Definition} {definition : Definition} {name : String}
    (hmember : definition ∈ definitions) (hname : definition.name = name) :
    ∃ found, definitions.find? (·.name == name) = some found := by
  rw [← Option.isSome_iff_exists, List.find?_isSome]
  exact ⟨definition, hmember, beq_iff_eq.mpr hname⟩

theorem DistinctNames.find?_name {definitions : List Definition}
    (hdistinct : DistinctNames definitions) {definition : Definition}
    (hmember : definition ∈ definitions) :
    definitions.find? (·.name == definition.name) = some definition := by
  obtain ⟨found, hfind⟩ := exists_find?_name hmember rfl
  obtain ⟨hfound, hname⟩ := mem_of_find?_name hfind
  rw [hfind, hdistinct.eq_of_name hfound hmember hname]

end NoiseShader
