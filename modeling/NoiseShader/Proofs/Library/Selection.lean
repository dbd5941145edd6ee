import NoiseShader.Proofs.Library.Contents
import NoiseShader.Proofs.Program.Pruning
import NoiseShader.Proofs.Program.Undefined

/-!
# Selecting definitions of the library

In the library no definition calls itself or one that stands after it, and all
calls lead to built-in functions, to types or to other definitions of the library.
The definitions that some trees reach are a part of the library that is closed
under calls, so each of them stands after everything it calls.

A program made of a function and the definitions it reaches therefore has all it
needs from the library and nothing else.
-/

namespace NoiseShader

/-- No definition calls itself or one that stands after it. -/
structure CallsBackward (definitions : List Definition) : Prop where
  later : definitions.Pairwise fun caller callee => ¬ caller.toNode.Calls callee.name
  self : ∀ definition ∈ definitions, ¬ definition.toNode.Calls definition.name

namespace CallsBackward

variable {definitions : List Definition}

theorem sublist {kept : List Definition} (hbackward : CallsBackward definitions)
    (hkept : kept.Sublist definitions) : CallsBackward kept where
  later := hbackward.later.sublist hkept
  self definition hmember := hbackward.self definition (hkept.subset hmember)

theorem mem_front (hbackward : CallsBackward definitions) {front back : List Definition}
    {caller callee : Definition} (hsplit : definitions = front ++ caller :: back)
    (hcallee : callee ∈ definitions) (hcalls : caller.toNode.Calls callee.name) :
    callee ∈ front := by
  subst hsplit
  have hlater := (List.pairwise_append.mp hbackward.later).2.1
  rw [List.pairwise_cons] at hlater
  rcases List.mem_append.mp hcallee with hfront | hrest
  · exact hfront
  · rcases List.mem_cons.mp hrest with rfl | hback
    · exact absurd hcalls (hbackward.self callee hcallee)
    · exact absurd hcalls (hlater.1 callee hback)

end CallsBackward

namespace Library

/-! ## The library as a whole -/

set_option maxRecDepth 4000 in
theorem callsBackward_contents : CallsBackward contents := by
  constructor
  · decide
  · decide

set_option maxRecDepth 4000 in
theorem callable_of_contents {definition : Definition} (hmember : definition ∈ contents)
    {name : String} (hcalls : definition.toNode.Calls name) :
    Validate.Callable (contents.map Definition.name) name := by
  have hall : contents.all (fun definition => definition.toNode.preorder.all fun node =>
      node.calledName?.all fun name => Words.isBuiltinFunction name || Words.isType name ||
        (contents.map Definition.name).contains name) = true := rfl
  obtain ⟨inner, hinner, hname⟩ := Node.calls_iff_mem_preorder.mp hcalls
  have hcase := List.all_eq_true.mp (List.all_eq_true.mp hall definition hmember) inner hinner
  rw [hname, Option.all_some, Bool.or_eq_true, Bool.or_eq_true, List.contains_iff_mem] at hcase
  rcases hcase with (hbuiltin | htype) | hlibrary
  · exact .inl (List.contains_iff_mem.mp hbuiltin)
  · exact .inr (.inl (List.contains_iff_mem.mp htype))
  · exact .inr (.inr hlibrary)

theorem contents_known {definition : Definition} (hmember : definition ∈ contents) :
    definition.toNode.Known := by
  have hall : contents.all (·.toNode.unknown?.isNone) = true := rfl
  have hnone := List.all_eq_true.mp hall definition hmember
  exact Node.unknown?_eq_none.mp (Option.isNone_iff_eq_none.mp hnone)

theorem contents_noInnerFunction {definition : Definition} (hmember : definition ∈ contents) :
    definition.toNode.NoInnerFunction := by
  have hall : ∀ definition ∈ contents, definition.toNode.NoInnerFunction := by decide
  exact hall definition hmember

theorem distinctNames_contents : DistinctNames contents := by
  decide

theorem searchable_contents {roots : List Node} (hroots : ∀ root ∈ roots, root.Known) :
    Searchable contents roots where
  distinct := distinctNames_contents
  definitions_known _ := contents_known
  roots_known := hroots

/-! ## Reached definitions -/

theorem referenced_eq {roots : List Node} (hroots : ∀ root ∈ roots, root.Known) :
    ∃ kept, referenced roots = .ok kept ∧ kept.Sublist contents ∧
      ∀ definition, definition ∈ kept ↔ Reached contents roots definition := by
  obtain ⟨kept, -, hkept, -, hsublist, hreached⟩ := (searchable_contents hroots).reachable_eq
  refine ⟨kept, ?_, hsublist, hreached⟩
  rw [referenced, definitions_eq]
  exact hkept

theorem known_of_referenced {roots : List Node} {kept : List Definition}
    (hkept : referenced roots = .ok kept) : ∀ root ∈ roots, root.Known := by
  rw [referenced, definitions_eq] at hkept
  exact known_of_reachable distinctNames_contents hkept

/-- What a selection holds is closed under calls into the library. -/
theorem mem_of_calls {roots : List Node} {kept : List Definition}
    (hreached : ∀ definition, definition ∈ kept ↔ Reached contents roots definition)
    {tree : Node} (htree : tree ∈ kept.map Definition.toNode ++ roots) {callee : Definition}
    (hcallee : callee ∈ contents) (hcalls : tree.Calls callee.name) : callee ∈ kept := by
  rw [hreached]
  exact .of_calls (fun caller => (hreached caller).mp) htree hcallee hcalls

theorem mem_front_of_calls {roots : List Node} {kept front back : List Definition}
    {caller callee : Definition} (hsublist : kept.Sublist contents)
    (hreached : ∀ definition, definition ∈ kept ↔ Reached contents roots definition)
    (hsplit : kept = front ++ caller :: back) (hcallee : callee ∈ contents)
    (hcalls : caller.toNode.Calls callee.name) : callee ∈ front := by
  have hcaller : caller ∈ kept := by simp [hsplit]
  have hkept : callee ∈ kept :=
    mem_of_calls hreached (List.mem_append_left _ (List.mem_map_of_mem hcaller)) hcallee hcalls
  exact (callsBackward_contents.sublist hsublist).mem_front hsplit hkept hcalls

/-! ## Programs over the library -/

section Programs

variable {main : Definition} {kept : List Definition}

theorem proper_selection (hmain : main.toNode.Known)
    (hname : main.name ∉ contents.map Definition.name) (hsublist : kept.Sublist contents) :
    (Program.mk kept main.toNode).Proper where
  main_present := by simp [Definition.toNode]
  named definition hmember := contents_name_ne (hsublist.subset hmember)
  apart := by
    rintro entry ⟨⟩ definition hmember hsame
    exact hname (List.mem_map.mpr ⟨definition, hsublist.subset hmember, hsame⟩)
  distinct := distinctNames_contents.sublist hsublist
  known := by
    intro tree htree
    rcases List.mem_append.mp htree with hdefinition | hentry
    · obtain ⟨definition, hmember, rfl⟩ := List.mem_map.mp hdefinition
      exact contents_known (hsublist.subset hmember)
    · rw [List.mem_singleton.mp hentry]
      exact hmain

/-- In a selection every call leads to something in front of it. -/
theorem callable_of_kept {roots : List Node} {front back : List Definition} {caller : Definition}
    (hsublist : kept.Sublist contents)
    (hreached : ∀ definition, definition ∈ kept ↔ Reached contents roots definition)
    (hsplit : kept = front ++ caller :: back) {name : String} (hcalls : caller.toNode.Calls name) :
    Validate.Callable ((front ++ [caller]).map Definition.name) name := by
  have hcaller : caller ∈ contents := hsublist.subset (by simp [hsplit])
  rcases callable_of_contents hcaller hcalls with hbuiltin | htype | hlibrary
  · exact .inl hbuiltin
  · exact .inr (.inl htype)
  · obtain ⟨callee, hcallee, rfl⟩ := List.mem_map.mp hlibrary
    have hfront := mem_front_of_calls hsublist hreached hsplit hcallee hcalls
    exact .inr (.inr (List.mem_map_of_mem (List.mem_append_left _ hfront)))

theorem callable_kept_main_iff (hsublist : kept.Sublist contents)
    (hreached : ∀ definition, definition ∈ kept ↔ Reached contents [main.toNode] definition)
    {name : String} (hcalls : main.toNode.Calls name) :
    Validate.Callable ((kept ++ [main]).map Definition.name) name ↔
      Validate.Callable ((contents ++ [main]).map Definition.name) name := by
  apply Validate.callable_congr
  simp only [List.map_append, List.mem_append]
  refine or_congr_left ?_
  constructor
  · intro hkept
    exact (hsublist.map Definition.name).subset hkept
  · intro hlibrary
    obtain ⟨callee, hcallee, rfl⟩ := List.mem_map.mp hlibrary
    have hentry : main.toNode ∈ kept.map Definition.toNode ++ [main.toNode] := by simp
    exact List.mem_map_of_mem (mem_of_calls hreached hentry hcallee hcalls)

theorem undefinedCall_mem_selection (hinner : main.toNode.NoInnerFunction)
    (hsublist : kept.Sublist contents)
    (hreached : ∀ definition, definition ∈ kept ↔ Reached contents [main.toNode] definition)
    (globals : List String) {function callee : String} :
    Defect.undefinedCall function callee ∈ (Program.mk kept main.toNode).validate globals ↔
      function = main.name ∧ main.toNode.Calls callee ∧
        ¬ Validate.Callable ((contents ++ [main]).map Definition.name) callee := by
  have hinnerAll : ∀ definition ∈ kept ++ [main], definition.toNode.NoInnerFunction := by
    intro definition hmember
    rcases List.mem_append.mp hmember with hkept | hentry
    · exact contents_noInnerFunction (hsublist.subset hkept)
    · rw [List.mem_singleton.mp hentry]
      exact hinner
  rw [Program.undefinedCall_mem_validate hinnerAll]
  constructor
  · rintro ⟨front, definition, back, hsplit, rfl, hcalls, hundefined⟩
    -- The definition is the entry, because what is kept calls nothing undefined.
    rcases List.eq_nil_or_concat back with rfl | ⟨others, last, rfl⟩
    · obtain ⟨rfl, hentry⟩ := List.append_inj' hsplit rfl
      cases hentry
      exact ⟨rfl, hcalls, fun hcallable =>
        hundefined ((callable_kept_main_iff hsublist hreached hcalls).mpr hcallable)⟩
    · rw [List.concat_eq_append, ← List.cons_append, ← List.append_assoc] at hsplit
      obtain ⟨hkept, -⟩ := List.append_inj' hsplit rfl
      exact absurd (callable_of_kept hsublist hreached hkept hcalls) hundefined
  · rintro ⟨rfl, hcalls, hundefined⟩
    refine ⟨kept, main, [], rfl, rfl, hcalls, fun hcallable => hundefined ?_⟩
    exact (callable_kept_main_iff hsublist hreached hcalls).mp hcallable

end Programs

/-- Unless there are unknown nodes in them, the definitions that some trees reach are the part of
the library to which calls lead, in the order of the library, and each one stands after all it
calls.  A function and the definitions it reaches make a program to which pruning does nothing, and
the only calls that are reported as undefined are those of the function to names that neither the
language nor the library has. -/
theorem referenced_closes_program :
    (∀ roots : List Node,
      ((∃ kept, referenced roots = .ok kept) ↔ ∀ root ∈ roots, root.Known) ∧
        ∀ kept, referenced roots = .ok kept → kept.Sublist definitions ∧
          (∀ definition, definition ∈ kept ↔ Reached definitions roots definition) ∧
          ∀ front caller back, kept = front ++ caller :: back → ∀ callee ∈ definitions,
            caller.toNode.Calls callee.name → callee ∈ front) ∧
    ∀ main : Definition, main.toNode.Known → main.toNode.NoInnerFunction →
      main.name ∉ definitions.map Definition.name →
      ∃ kept program, referenced [main.toNode] = .ok kept ∧
        Program.create main.toNode kept = .ok program ∧
        (∀ globals function callee,
          Defect.undefinedCall function callee ∈ program.validate globals ↔
            function = main.name ∧ main.toNode.Calls callee ∧
              callee ∉ Words.builtinFunctions ∧ callee ∉ Words.types ∧
              callee ∉ definitions.map Definition.name ∧ callee ≠ main.name) ∧
        program.prune = .ok program := by
  rw [definitions_eq]
  constructor
  · intro roots
    constructor
    · constructor
      · rintro ⟨kept, hkept⟩
        exact known_of_referenced hkept
      · intro hroots
        obtain ⟨kept, hkept, -⟩ := referenced_eq hroots
        exact ⟨kept, hkept⟩
    · intro kept hkept
      obtain ⟨found, hfound, hsublist, hreached⟩ := referenced_eq (known_of_referenced hkept)
      obtain rfl : found = kept := Except.ok.inj (hfound.symm.trans hkept)
      refine ⟨hsublist, hreached, ?_⟩
      intro front caller back hsplit callee hcallee hcalls
      exact mem_front_of_calls hsublist hreached hsplit hcallee hcalls
  · intro main hmain hinner hname
    have hroots : ∀ root ∈ [main.toNode], root.Known := by simpa using hmain
    obtain ⟨kept, hkept, hsublist, hreached⟩ := referenced_eq hroots
    have hproper := proper_selection hmain hname hsublist
    refine ⟨kept, ⟨kept, main.toNode⟩, hkept,
      Program.create_eq_ok_iff.mpr ⟨rfl, hproper⟩, ?_, ?_⟩
    · intro globals function callee
      rw [undefinedCall_mem_selection hinner hsublist hreached]
      simp only [Validate.Callable, not_or, List.map_append, List.mem_append, List.map_cons,
        List.map_nil, List.mem_singleton]
    · have hsame : reachable kept [main.toNode] = .ok kept := by
        apply (searchable_contents hroots).reachable_idem
        rw [← definitions_eq]
        exact hkept
      rw [Program.prune, hsame]
      rfl

/-- An entry that calls one kernel, itself, and a function that nobody defines. -/
def dappled : Definition :=
  ⟨"dappled", "vec2", [⟨"vec2", "p"⟩],
    [.declaration "vec2" "c" (.call "cellular" [.identifier "p"]),
      .result (.call "max" [.call "dappled" [.identifier "c"], .call "shade" [.identifier "c"]])]⟩

theorem referenced_closes_program_dappled :
    dappled.name ∉ definitions.map Definition.name ∧
      ∃ kept program, referenced [dappled.toNode] = .ok kept ∧
        Program.create dappled.toNode kept = .ok program ∧ program.prune = .ok program ∧
        (∀ globals, Defect.undefinedCall "dappled" "shade" ∈ program.validate globals) ∧
        ∀ globals function,
          Defect.undefinedCall function "cellular" ∉ program.validate globals := by
  have hname : dappled.name ∉ definitions.map Definition.name := by
    rw [definitions_eq]
    decide
  have hknown : dappled.toNode.Known := Node.unknown?_eq_none.mp rfl
  obtain ⟨kept, program, hkept, hcreate, hcalls, hprune⟩ :=
    referenced_closes_program.2 dappled hknown (by decide) hname
  refine ⟨hname, kept, program, hkept, hcreate, hprune, ?_, ?_⟩
  · intro globals
    rw [hcalls, definitions_eq]
    decide
  · intro globals function hdefect
    have hlibrary := ((hcalls globals function "cellular").mp hdefect).2.2.2.2.1
    rw [definitions_eq] at hlibrary
    exact absurd (show "cellular" ∈ contents.map Definition.name by decide) hlibrary

end Library

end NoiseShader
