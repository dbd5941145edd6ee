import NoiseShader.Proofs.Program.Inclusion
import NoiseShader.Proofs.Program.Pruning
import Mathlib.Tactic

/-!
# Programs that were changed

A program is changed by including definitions and by pruning, any number of times.
Including creates the program anew from merged definitions, which are checked
again; pruning only leaves definitions out.  Neither touches the entry, so what
holds of a created program holds of everything that comes from it.
-/

namespace NoiseShader

/-- A change of a program. -/
inductive Revision where
  | inclusion (definitions : List Definition)
  | pruning

/-- The definitions that a change brings with it. -/
def Revision.brought : Revision → List Definition
  | .inclusion definitions => definitions
  | .pruning => []

/-- What each step keeps about a state and the events so far, a run without failure keeps. -/
theorem foldlM_keeps {σ ε α : Type} {step : σ → α → Except ε σ} (holds : σ → List α → Prop)
    (hstep : ∀ {state next earlier event}, holds state earlier → step state event = .ok next →
      holds next (earlier ++ [event]))
    {state final : σ} {earlier events : List α} (hstart : holds state earlier)
    (hrun : events.foldlM step state = .ok final) : holds final (earlier ++ events) := by
  induction events generalizing state earlier with
  | nil =>
      cases hrun
      rwa [List.append_nil]
  | cons event rest ih =>
      rw [List.foldlM_cons] at hrun
      cases hnext : step state event with
      | error cause =>
          rw [hnext] at hrun
          cases hrun
      | ok next =>
          rw [hnext] at hrun
          rw [List.append_cons]
          exact ih (hstep hstart hnext) hrun

/-! ## Merged definitions -/

theorem Merge.insert_subset {merge next : Merge} {definition : Definition}
    (hinsert : merge.insert definition = .ok next) :
    next.definitions ⊆ merge.definitions ++ [definition] := by
  unfold insert at hinsert
  split_ifs at hinsert
  split at hinsert
  next => cases hinsert
  next =>
    simp only at hinsert
    split at hinsert
    next =>
      split_ifs at hinsert
      cases hinsert
      exact List.subset_append_left _ _
    next =>
      cases hinsert
      exact List.Subset.refl _

/-- Merging makes up no definitions. -/
theorem subset_of_mergeDefinitions {lists : List (List Definition)} {merged : List Definition}
    (hmerge : mergeDefinitions lists = .ok merged) : merged ⊆ lists.flatten := by
  unfold mergeDefinitions at hmerge
  cases hfold : lists.flatten.foldlM Merge.insert Merge.empty with
  | error cause => simp [hfold, bind, Except.bind] at hmerge
  | ok final =>
      simp only [hfold, bind, Except.bind, pure, Except.pure, Except.ok.injEq] at hmerge
      rw [← hmerge]
      have hnothing : Merge.empty.definitions ⊆ [] := List.Subset.refl _
      refine foldlM_keeps (fun merge earlier => merge.definitions ⊆ earlier) ?_ hnothing hfold
      intro merge next earlier definition hearlier hinsert
      exact List.Subset.trans (Merge.insert_subset hinsert)
        (List.append_subset.mpr ⟨List.Subset.trans hearlier (List.subset_append_left _ _),
          List.subset_append_right _ _⟩)

namespace Program

variable {program next : Program}

/-! ## Looking up definitions -/

theorem Proper.distinct_functions (hproper : program.Proper) :
    DistinctNames (program.definitions ++ program.main.asFunction?.toList) := by
  unfold DistinctNames
  rw [List.map_append, List.nodup_append]
  refine ⟨hproper.distinct, ?_, ?_⟩
  · cases program.main.asFunction? <;> simp
  · intro name hname other hother
    obtain ⟨definition, hdefinition, rfl⟩ := List.mem_map.mp hname
    obtain ⟨entry, hentry, rfl⟩ := List.mem_map.mp hother
    exact hproper.apart entry (Option.mem_toList.mp hentry) definition hdefinition

/-- A name finds the one definition, or the entry, that has it. -/
theorem Proper.definition?_eq_some_iff (hproper : program.Proper) {name : String}
    {definition : Definition} :
    program.definition? name = some definition ↔
      definition.name = name ∧
        (definition ∈ program.definitions ∨ program.main.asFunction? = some definition) := by
  have hmember : definition ∈ program.definitions ++ program.main.asFunction?.toList ↔
      definition ∈ program.definitions ∨ program.main.asFunction? = some definition := by
    rw [List.mem_append, Option.mem_toList]
  rw [← hmember]
  constructor
  · intro hfound
    exact (mem_of_find?_name hfound).symm
  · rintro ⟨rfl, hdefinition⟩
    exact hproper.distinct_functions.find?_name hdefinition

/-! ## One change -/

def revise (program : Program) : Revision → Except ProgramError Program
  | .inclusion definitions => program.withDefinitions definitions
  | .pruning => program.prune.mapError .unknownNode

/-- What a change makes of a program. -/
structure Revised (program next : Program) (brought : List Definition) : Prop where
  proper : next.Proper
  main : next.main = program.main
  origin : ∀ definition ∈ next.definitions, definition ∈ program.definitions ∨ definition ∈ brought

theorem Proper.of_pruned (hproper : program.Proper) (hpruned : Pruned program next) :
    next.Proper where
  main_present := by
    rw [hpruned.main]
    exact hproper.main_present
  named definition hmember := hproper.named definition (hpruned.sublist.subset hmember)
  apart := by
    rw [hpruned.main]
    intro entry hentry definition hmember
    exact hproper.apart entry hentry definition (hpruned.sublist.subset hmember)
  distinct := hproper.distinct.sublist hpruned.sublist
  known tree htree := by
    apply hproper.known
    rw [trees, hpruned.main] at htree
    exact ((hpruned.sublist.map Definition.toNode).append_right [program.main]).subset htree

theorem Proper.revised (hproper : program.Proper) {revision : Revision}
    (hrevise : program.revise revision = .ok next) :
    Revised program next revision.brought := by
  cases revision with
  | inclusion definitions =>
      obtain ⟨merged, hmerge, hcreate⟩ := withDefinitions_eq_ok_iff.mp hrevise
      obtain ⟨rfl, hnext⟩ := create_eq_ok_iff.mp hcreate
      refine ⟨hnext, rfl, fun definition hmember => ?_⟩
      have hsource := subset_of_mergeDefinitions hmerge hmember
      simpa [Revision.brought, or_comm] using hsource
  | pruning =>
      obtain ⟨pruned, hprune, hpruned⟩ := hproper.prune
      rw [revise, hprune] at hrevise
      cases hrevise
      exact ⟨hproper.of_pruned hpruned, hpruned.main, fun definition hmember =>
        .inl (hpruned.sublist.subset hmember)⟩

theorem Revised.trans {middle : Program} {earlier later : List Definition}
    (hfirst : Revised program middle earlier) (hsecond : Revised middle next later) :
    Revised program next (earlier ++ later) where
  proper := hsecond.proper
  main := hsecond.main.trans hfirst.main
  origin definition hmember := by
    rw [List.mem_append]
    rcases hsecond.origin definition hmember with hmiddle | hlater
    · exact (hfirst.origin definition hmiddle).imp_right .inl
    · exact .inr (.inr hlater)

/-! ## Any number of changes -/

def reviseAll (program : Program) (revisions : List Revision) : Except ProgramError Program :=
  revisions.foldlM revise program

theorem Proper.revisedAll (hproper : program.Proper) {revisions : List Revision}
    (hrevise : program.reviseAll revisions = .ok next) :
    Revised program next (revisions.flatMap Revision.brought) := by
  have hstart : Revised program program ([].flatMap Revision.brought) :=
    ⟨hproper, rfl, fun _ => .inl⟩
  refine foldlM_keeps (fun state earlier => Revised program state
    (earlier.flatMap Revision.brought)) ?_ hstart hrevise
  intro state later earlier revision hstate hlater
  rw [List.flatMap_append, List.flatMap_singleton]
  exact hstate.trans (hstate.proper.revised hlater)

theorem environment_of_main (hmain : next.main = program.main) :
    next.environment = program.environment := by
  rw [environment, environment, hmain]

theorem Proper.render_eq (hproper : program.Proper) :
    program.render = do
      let definitions ← program.definitions.mapM (·.toNode.renderWith program.environment)
      let main ← program.main.renderWith program.environment
      return Text.trimBlank (String.join (definitions.map (· ++ "\n")) ++ main) := by
  have hpresent : program.main.isAbsent = false := by
    rw [← Bool.not_eq_true, Node.isAbsent_iff]
    exact hproper.main_present
  rw [render, hpresent]
  rfl

/-- Whatever is included and pruned, in any order: the definitions keep to the rules for names, the
entry and all that comes from it stay the same, a name finds what has it, and no definition comes
from nowhere. -/
theorem names_and_entry_survive {main : Node} {definitions : List Definition}
    {initial final : Program} {revisions : List Revision}
    (hcreate : create main definitions = .ok initial)
    (hrevise : initial.reviseAll revisions = .ok final) :
    ((∀ definition ∈ final.definitions, definition.name ≠ "") ∧
      DistinctNames final.definitions ∧
      ∀ entry ∈ final.main.asFunction?, ∀ definition ∈ final.definitions,
        definition.name ≠ entry.name) ∧
    (final.main = main ∧ initial.main = main ∧ final.environment = initial.environment ∧
      final.render = do
        let texts ← final.definitions.mapM (·.toNode.renderWith initial.environment)
        let text ← initial.main.renderWith initial.environment
        return Text.trimBlank (String.join (texts.map (· ++ "\n")) ++ text)) ∧
    (∀ text, Text.Trims text (Text.trimBlank text)) ∧
    (∀ name definition, final.definition? name = some definition ↔
      definition.name = name ∧
        (definition ∈ final.definitions ∨ final.main.asFunction? = some definition)) ∧
    (∀ definition ∈ final.definitions, definition ∈ definitions ∨
      ∃ included, Revision.inclusion included ∈ revisions ∧ definition ∈ included) ∧
    ∃ pruned, final.prune = .ok pruned := by
  obtain ⟨rfl, hinitial⟩ := create_eq_ok_iff.mp hcreate
  have hrevised := hinitial.revisedAll hrevise
  have hproper := hrevised.proper
  have henvironment := environment_of_main hrevised.main
  refine ⟨⟨hproper.named, hproper.distinct, hproper.apart⟩,
    ⟨hrevised.main, rfl, henvironment, ?_⟩, Text.trims_trimBlank, fun name definition => ?_, ?_,
    ?_⟩
  · rw [hproper.render_eq, henvironment, hrevised.main]
  · exact hproper.definition?_eq_some_iff
  · intro definition hmember
    refine (hrevised.origin definition hmember).imp_right fun hbrought => ?_
    obtain ⟨revision, hrevision, hincluded⟩ := List.mem_flatMap.mp hbrought
    cases revision with
    | inclusion included => exact ⟨included, hrevision, hincluded⟩
    | pruning => cases hincluded
  · obtain ⟨pruned, hprune, -⟩ := hproper.prune
    exact ⟨pruned, hprune⟩

/-- Another function of the name that pruning frees. -/
def busy : Definition := ⟨"idle", "float", [], [.result (.literal (.int 0))]⟩

/-- The name of a definition that was pruned is free again, for another definition. -/
theorem names_and_entry_survive_busy :
    create tangled.main tangled.definitions = .ok tangled ∧
      (∀ next, tangled.reviseAll [.inclusion [busy]] ≠ .ok next) ∧
      ∃ final, tangled.reviseAll [.inclusion [], .pruning, .inclusion [busy]] = .ok final ∧
        final.definition? "idle" = some busy ∧ final.main = tangled.main ∧
        final.environment = tangled.environment := by
  have hcreate : create tangled.main tangled.definitions = .ok tangled := by rfl
  have hrevise : tangled.reviseAll [.inclusion [], .pruning, .inclusion [busy]] =
      .ok ⟨busy :: tangled.definitions.tail, tangled.main⟩ := by rfl
  obtain ⟨-, ⟨hmain, -, henvironment, -⟩, -, hfound, -, -⟩ :=
    names_and_entry_survive hcreate hrevise
  have hbusy := (hfound "idle" busy).mpr ⟨rfl, .inl (List.mem_cons_self ..)⟩
  refine ⟨hcreate, fun next hnext => ?_, _, hrevise, hbusy, hmain, henvironment⟩
  cases hnext

end Program

end NoiseShader
