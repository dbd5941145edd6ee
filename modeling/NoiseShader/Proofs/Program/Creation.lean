import NoiseShader.Proofs.Program.Naming
import NoiseShader.Proofs.Syntax.Containment
import NoiseShader.Program.Basic

/-!
# Programs that were created

Creating a program checks it: there is an entry, the definitions have names, no
two of them share one, none has the name of the entry, and no tree holds a node by
reference.  Nothing else is checked, and nothing is changed.
-/

namespace NoiseShader

theorem Node.isAbsent_iff {node : Node} : node.isAbsent = true ↔ node = .absent := by
  cases node <;> simp [Node.isAbsent]

namespace Program

/-- What holds of every program that was created. -/
structure Proper (program : Program) : Prop where
  main_present : program.main ≠ .absent
  named : ∀ definition ∈ program.definitions, definition.name ≠ ""
  apart : ∀ entry ∈ program.main.asFunction?, ∀ definition ∈ program.definitions,
    definition.name ≠ entry.name
  distinct : DistinctNames program.definitions
  known : ∀ tree ∈ program.trees, tree.Known

theorem checkNames_eq_ok_iff {taken : List String} {position : ℕ}
    {definitions : List Definition} :
    checkNames taken position definitions = .ok () ↔
      (∀ definition ∈ definitions, definition.name ≠ "" ∧ definition.name ∉ taken) ∧
        DistinctNames definitions := by
  induction definitions generalizing taken position with
  | nil => simp [checkNames, DistinctNames]
  | cons definition rest ih =>
      by_cases hempty : definition.name = ""
      · simp [checkNames, hempty]
      · by_cases htaken : definition.name ∈ taken
        · simp [checkNames, hempty, htaken]
        · rw [checkNames, if_neg hempty, if_neg htaken, ih]
          simp only [DistinctNames, List.map_cons, List.nodup_cons, List.mem_cons, List.mem_map]
          constructor
          · rintro ⟨hrest, hdistinct⟩
            refine ⟨?_, ?_, hdistinct⟩
            · rintro other (rfl | hother)
              · exact ⟨hempty, htaken⟩
              · exact ⟨(hrest other hother).1, fun h => (hrest other hother).2 (.inr h)⟩
            · rintro ⟨other, hother, hname⟩
              exact (hrest other hother).2 (.inl hname)
          · rintro ⟨hall, hnew, hdistinct⟩
            refine ⟨fun other hother => ⟨(hall other (.inr hother)).1, ?_⟩, hdistinct⟩
            rintro (hname | hknown)
            · exact hnew ⟨other, hother, hname⟩
            · exact (hall other (.inr hother)).2 hknown

theorem checkNodes_eq_ok_iff {definitions : List Definition} {main : Node} :
    checkNodes definitions main = .ok () ↔
      ∀ tree ∈ (Program.mk definitions main).trees, tree.Known := by
  have hnone : (definitions.map Definition.toNode ++ [main]).findSome? Node.unknown? = none ↔
      ∀ tree ∈ (Program.mk definitions main).trees, tree.Known := by
    rw [List.findSome?_eq_none_iff]
    simp only [Node.unknown?_eq_none, trees]
  rw [← hnone, checkNodes]
  cases (definitions.map Definition.toNode ++ [main]).findSome? Node.unknown? <;> simp

theorem create_eq_ok_iff_checks {main : Node} {definitions : List Definition}
    {program : Program} :
    create main definitions = .ok program ↔
      main ≠ .absent ∧
        checkNames (main.asFunction?.map (·.name)).toList 0 definitions = .ok () ∧
        checkNodes definitions main = .ok () ∧ program = ⟨definitions, main⟩ := by
  unfold create
  by_cases habsent : main = .absent
  · subst habsent
    simp [Node.isAbsent, throw, throwThe, MonadExceptOf.throw, bind, Except.bind]
  · have hpresent : ¬ main.isAbsent = true := fun h => habsent (Node.isAbsent_iff.mp h)
    rw [if_neg hpresent]
    cases hnames : checkNames (main.asFunction?.map (·.name)).toList 0 definitions with
    | error cause => simp [bind, Except.bind, hnames]
    | ok =>
        cases hnodes : checkNodes definitions main with
        | error cause => simp [bind, Except.bind, hnames]
        | ok => simp [bind, Except.bind, pure, Except.pure, hnames, habsent, eq_comm]

/-- Creating a program accepts exactly what is proper, and returns it as it is. -/
theorem create_eq_ok_iff {main : Node} {definitions : List Definition} {program : Program} :
    create main definitions = .ok program ↔ program = ⟨definitions, main⟩ ∧ program.Proper := by
  rw [create_eq_ok_iff_checks, checkNames_eq_ok_iff, checkNodes_eq_ok_iff]
  constructor
  · rintro ⟨hpresent, ⟨hnames, hdistinct⟩, hknown, rfl⟩
    refine ⟨rfl, hpresent, fun definition hmember => (hnames definition hmember).1, ?_,
      hdistinct, hknown⟩
    intro entry hentry definition hmember hname
    apply (hnames definition hmember).2
    rw [Option.mem_def.mp hentry, hname]
    exact List.mem_singleton_self _
  · rintro ⟨rfl, hproper⟩
    refine ⟨hproper.main_present, ⟨?_, hproper.distinct⟩, hproper.known, rfl⟩
    intro definition hmember
    refine ⟨hproper.named definition hmember, fun htaken => ?_⟩
    obtain ⟨entry, hentry, hname⟩ := Option.map_eq_some_iff.mp (Option.mem_toList.mp htaken)
    exact hproper.apart entry hentry definition hmember hname.symm

end Program

end NoiseShader
