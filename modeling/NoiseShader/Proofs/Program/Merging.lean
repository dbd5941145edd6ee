import NoiseShader.Program.Merge
import NoiseShader.Proofs.Program.Naming
import Mathlib.Tactic

/-!
# Merging without collisions

A merge remembers fingerprints: that of a source under that of a name.  As long as
no two definitions collide, the record of a merge is the list of its definitions
under another key, and inserting a definition does what it would do with names and
sources in place of fingerprints.

Definitions that have names, and agree in their sources where they agree in their
names, merge into the first definition of each name.
-/

namespace NoiseShader

def Definition.nameMark (definition : Definition) : UInt64 := Fingerprint.ofText 0 definition.name

def Definition.source (definition : Definition) : String :=
  (definition.toNode.render.toOption).getD ""

def Definition.sourceMark (definition : Definition) : UInt64 :=
  Fingerprint.ofText definition.nameMark definition.source

namespace Merge

/-- The fingerprints are those of the definitions. -/
def Faithful (merge : Merge) : Prop :=
  merge.known = merge.definitions.map fun definition => (definition.nameMark, definition.sourceMark)

theorem lookup_marks (definitions : List Definition) (mark : UInt64) :
    (definitions.map fun definition => (definition.nameMark, definition.sourceMark)).lookup mark =
      (definitions.find? (mark == ·.nameMark)).map Definition.sourceMark := by
  induction definitions with
  | nil => rfl
  | cons definition rest ih =>
      rw [List.map_cons, List.lookup_cons, List.find?_cons]
      cases hmark : mark == definition.nameMark with
      | true => rfl
      | false => exact ih

/-- What inserting a definition does, in terms of names instead of fingerprints. -/
theorem insert_eq {merge : Merge} {definition : Definition} {source : String}
    (hfaithful : merge.Faithful) (hnamed : definition.name ≠ "")
    (hsource : definition.toNode.render = .ok source)
    (hmarks : ∀ known ∈ merge.definitions,
      known.nameMark = definition.nameMark → known.name = definition.name) :
    merge.insert definition =
      match merge.definitions.find? (·.name == definition.name) with
      | none => .ok ⟨merge.definitions ++ [definition],
          merge.known ++ [(definition.nameMark, definition.sourceMark)]⟩
      | some known =>
        if known.sourceMark = definition.sourceMark then .ok merge
        else .error (.conflict definition.name source) := by
  have hmark : Fingerprint.ofText (Fingerprint.ofText 0 definition.name) source =
      definition.sourceMark := by
    rw [Definition.sourceMark, Definition.source, hsource]
    rfl
  have hfind : merge.definitions.find? (Fingerprint.ofText 0 definition.name == ·.nameMark) =
      merge.definitions.find? (·.name == definition.name) := by
    apply List.find?_congr
    intro known hknown
    rw [Bool.eq_iff_iff, beq_iff_eq, beq_iff_eq]
    constructor
    · intro heq
      exact hmarks known hknown heq.symm
    · intro heq
      rw [Definition.nameMark, heq]
  have hlookup : merge.known.lookup (Fingerprint.ofText 0 definition.name) =
      (merge.definitions.find? (·.name == definition.name)).map Definition.sourceMark := by
    rw [hfaithful, lookup_marks, hfind]
  unfold insert
  rw [if_neg hnamed, hsource]
  simp only [hmark, hlookup]
  cases merge.definitions.find? (·.name == definition.name) with
  | none => rfl
  | some known => rfl

end Merge

/-! ## Names and sources in place of fingerprints -/

/-- Adds a definition to a merged list by its name and its source. -/
def addBySource (definitions : List Definition) (definition : Definition) :
    Except MergeError (List Definition) :=
  if definition.name = "" then .error .unnamed
  else
    match definitions.find? (·.name == definition.name) with
    | none => .ok (definitions ++ [definition])
    | some known =>
      if known.source = definition.source then .ok definitions
      else .error (.conflict definition.name definition.source)

/-- All definitions can be written, distinct names have distinct fingerprints, and so have distinct
sources under one name. -/
structure Collisionless (definitions : List Definition) : Prop where
  writable : ∀ definition ∈ definitions, definition.toNode.render.isOk = true
  names : ∀ definition ∈ definitions, ∀ other ∈ definitions,
    definition.nameMark = other.nameMark → definition.name = other.name
  sources : ∀ definition ∈ definitions, ∀ other ∈ definitions, definition.name = other.name →
    definition.sourceMark = other.sourceMark → definition.source = other.source

theorem Collisionless.subset {definitions others : List Definition}
    (hcollisionless : Collisionless definitions) (hsubset : others ⊆ definitions) :
    Collisionless others where
  writable definition hmember := hcollisionless.writable definition (hsubset hmember)
  names definition hmember other hother :=
    hcollisionless.names definition (hsubset hmember) other (hsubset hother)
  sources definition hmember other hother :=
    hcollisionless.sources definition (hsubset hmember) other (hsubset hother)

theorem Definition.render_eq_source {definition : Definition}
    (hwritable : definition.toNode.render.isOk = true) :
    definition.toNode.render = .ok definition.source := by
  unfold Definition.source
  cases hrender : definition.toNode.render with
  | ok source => rfl
  | error cause =>
      rw [hrender] at hwritable
      cases hwritable

namespace Merge

theorem insert_bySource {merge : Merge} {definition : Definition} (hfaithful : merge.Faithful)
    (hcollisionless : Collisionless (definition :: merge.definitions)) :
    addBySource merge.definitions definition = (merge.insert definition).map Merge.definitions ∧
      ∀ next, merge.insert definition = .ok next →
        next.Faithful ∧ next.definitions ⊆ definition :: merge.definitions := by
  have hself := @List.mem_cons_self _ definition merge.definitions
  by_cases hnamed : definition.name = ""
  · simp [addBySource, insert, hnamed, Except.map]
  have hsource := Definition.render_eq_source (hcollisionless.writable definition hself)
  have hnames : ∀ known ∈ merge.definitions,
      known.nameMark = definition.nameMark → known.name = definition.name := by
    intro known hknown
    exact hcollisionless.names known (List.mem_cons_of_mem _ hknown) definition hself
  rw [insert_eq hfaithful hnamed hsource hnames, addBySource, if_neg hnamed]
  cases hfind : merge.definitions.find? (·.name == definition.name) with
  | none =>
      refine ⟨rfl, ?_⟩
      rintro next hnext
      cases hnext
      constructor
      · simp only [Faithful, List.map_append, List.map_cons, List.map_nil]
        rw [hfaithful]
      · simp
  | some known =>
      obtain ⟨hmember, hname⟩ := mem_of_find?_name hfind
      have hmarks : known.sourceMark = definition.sourceMark ↔
          known.source = definition.source := by
        constructor
        · exact hcollisionless.sources known (List.mem_cons_of_mem _ hmember) definition hself hname
        · intro hsame
          rw [Definition.sourceMark, Definition.sourceMark, Definition.nameMark,
            Definition.nameMark, hname, hsame]
      by_cases hsame : known.source = definition.source
      · simp only [hmarks, if_pos hsame, Except.map, Except.ok.injEq]
        refine ⟨trivial, ?_⟩
        rintro next rfl
        exact ⟨hfaithful, List.subset_cons_self _ _⟩
      · simp [hmarks, hsame, Except.map]

theorem foldlM_insert {merge : Merge} {definitions : List Definition} (hfaithful : merge.Faithful)
    (hcollisionless : Collisionless (definitions ++ merge.definitions)) :
    (definitions.foldlM Merge.insert merge).map Merge.definitions =
      definitions.foldlM addBySource merge.definitions := by
  induction definitions generalizing merge with
  | nil => rfl
  | cons definition rest ih =>
      obtain ⟨hstep, hnext⟩ := insert_bySource hfaithful
        (hcollisionless.subset (List.cons_subset_cons _ (List.subset_append_right _ _)))
      rw [List.foldlM_cons, List.foldlM_cons, hstep]
      cases hinsert : merge.insert definition with
      | error cause => rfl
      | ok next =>
          obtain ⟨hnextFaithful, hsubset⟩ := hnext next hinsert
          refine ih hnextFaithful (hcollisionless.subset ?_)
          intro other hother
          simp only [List.cons_append, List.mem_cons, List.mem_append] at hother ⊢
          rcases hother with hrest | hmerged
          · exact .inr (.inl hrest)
          · rcases List.mem_cons.mp (hsubset hmerged) with rfl | hold
            · exact .inl rfl
            · exact .inr (.inr hold)

end Merge

theorem mergeDefinitions_eq_bySource {lists : List (List Definition)}
    (hcollisionless : Collisionless lists.flatten) :
    mergeDefinitions lists = lists.flatten.foldlM addBySource [] := by
  have hfold := @Merge.foldlM_insert Merge.empty lists.flatten rfl (by
    simpa [Merge.empty] using hcollisionless)
  rw [← show Merge.empty.definitions = [] from rfl, ← hfold, mergeDefinitions]
  cases lists.flatten.foldlM Merge.insert Merge.empty <;> rfl

/-! ## The first definition of each name -/

/-- The definitions without those whose name an earlier one has. -/
def firstOfEach : List Definition → List Definition
  | [] => []
  | definition :: rest => definition :: (firstOfEach rest).filter (·.name != definition.name)

theorem firstOfEach_sublist (definitions : List Definition) :
    (firstOfEach definitions).Sublist definitions := by
  induction definitions with
  | nil => exact .slnil
  | cons definition rest ih => exact .cons_cons _ (List.filter_sublist.trans ih)

theorem find?_firstOfEach (definitions : List Definition) (name : String) :
    (firstOfEach definitions).find? (·.name == name) = definitions.find? (·.name == name) := by
  induction definitions with
  | nil => rfl
  | cons definition rest ih =>
      rw [firstOfEach, List.find?_cons, List.find?_cons]
      cases hname : definition.name == name with
      | true => rfl
      | false =>
          -- The filter removes another name than the one looked for.
          rw [List.find?_filter, ← ih]
          apply List.find?_congr
          intro other hother
          have hne : definition.name ≠ name := by simpa using hname
          by_cases hsame : other.name = name
          · simp [hsame, hne.symm]
          · simp [hsame]

theorem distinctNames_firstOfEach (definitions : List Definition) :
    DistinctNames (firstOfEach definitions) := by
  induction definitions with
  | nil => exact .nil
  | cons definition rest ih =>
      refine List.nodup_cons.mpr ⟨?_, ih.sublist List.filter_sublist⟩
      simp

theorem firstOfEach_of_distinctNames {definitions : List Definition}
    (hdistinct : DistinctNames definitions) : firstOfEach definitions = definitions := by
  induction definitions with
  | nil => rfl
  | cons definition rest ih =>
      obtain ⟨hnew, hrest⟩ := List.nodup_cons.mp hdistinct
      rw [firstOfEach, ih hrest, List.filter_eq_self.mpr]
      intro other hother
      simp only [bne_iff_ne, ne_eq]
      intro hname
      exact hnew (List.mem_map.mpr ⟨other, hother, hname⟩)

theorem firstOfEach_concat (definitions : List Definition) (definition : Definition) :
    firstOfEach (definitions ++ [definition]) =
      match definitions.find? (·.name == definition.name) with
      | none => firstOfEach definitions ++ [definition]
      | some _ => firstOfEach definitions := by
  induction definitions with
  | nil => rfl
  | cons first rest ih =>
      rw [List.cons_append, firstOfEach, firstOfEach, ih, List.find?_cons]
      cases hname : first.name == definition.name with
      | true =>
          have hremoved : [definition].filter (·.name != first.name) = [] := by
            simp [eq_of_beq hname]
          cases rest.find? (·.name == definition.name) with
          | none => rw [List.filter_append, hremoved, List.append_nil]
          | some known => rfl
      | false =>
          have hkept : [definition].filter (·.name != first.name) = [definition] := by
            have hne : first.name ≠ definition.name := by simpa using hname
            simp [hne.symm]
          cases rest.find? (·.name == definition.name) with
          | none => rw [List.filter_append, hkept, List.cons_append]
          | some known => rfl

/-! ## What a merge returns -/

/-- The definitions have names, and one name has one source. -/
structure Consistent (definitions : List Definition) : Prop where
  named : ∀ definition ∈ definitions, definition.name ≠ ""
  agree : ∀ definition ∈ definitions, ∀ other ∈ definitions,
    definition.name = other.name → definition.source = other.source

theorem Consistent.subset {definitions others : List Definition}
    (hconsistent : Consistent definitions) (hsubset : others ⊆ definitions) :
    Consistent others where
  named definition hmember := hconsistent.named definition (hsubset hmember)
  agree definition hmember other hother :=
    hconsistent.agree definition (hsubset hmember) other (hsubset hother)

/-- The error of a definition that does not go with those before it. -/
inductive Offends (earlier : List Definition) (definition : Definition) : MergeError → Prop
  | unnamed (hname : definition.name = "") : Offends earlier definition .unnamed
  | conflict {known : Definition} (hnamed : definition.name ≠ "") (hknown : known ∈ earlier)
      (hname : known.name = definition.name) (hsource : known.source ≠ definition.source) :
      Offends earlier definition (.conflict definition.name definition.source)

theorem Offends.not_consistent {earlier later : List Definition} {definition : Definition}
    {cause : MergeError} (hoffends : Offends earlier definition cause) :
    ¬ Consistent (earlier ++ definition :: later) := by
  intro hconsistent
  have hmember : definition ∈ earlier ++ definition :: later := by
    simp
  cases hoffends with
  | unnamed hname => exact hconsistent.named definition hmember hname
  | conflict hnamed hknown hname hsource =>
      exact hsource (hconsistent.agree _ (List.mem_append_left _ hknown) definition hmember hname)

theorem Offends.message_eq {earlier : List Definition} {definition : Definition}
    {cause : MergeError} (hoffends : Offends earlier definition cause) :
    cause.message =
      if definition.name = "" then "definition with empty name"
      else "conflicting definitions of " ++ Text.quoted definition.name ++ ":\n" ++
        definition.source := by
  cases hoffends with
  | unnamed hname => exact (if_pos hname).symm
  | conflict hnamed => exact (if_neg hnamed).symm

theorem Consistent.concat {earlier : List Definition} {definition : Definition}
    (hconsistent : Consistent earlier) (hnamed : definition.name ≠ "")
    (hagree : ∀ known ∈ earlier, known.name = definition.name → known.source = definition.source) :
    Consistent (earlier ++ [definition]) := by
  constructor
  · intro other hother
    rcases List.mem_append.mp hother with hother | hother
    · exact hconsistent.named other hother
    · rwa [List.mem_singleton.mp hother]
  · intro one hone other hother hname
    rcases List.mem_append.mp hone with honeOld | honeNew <;>
      rcases List.mem_append.mp hother with hotherOld | hotherNew
    · exact hconsistent.agree one honeOld other hotherOld hname
    · obtain rfl := List.mem_singleton.mp hotherNew
      exact hagree one honeOld hname
    · obtain rfl := List.mem_singleton.mp honeNew
      exact (hagree other hotherOld hname.symm).symm
    · rw [List.mem_singleton.mp honeNew, List.mem_singleton.mp hotherNew]

theorem addBySource_firstOfEach {earlier : List Definition} (hconsistent : Consistent earlier)
    (definition : Definition) :
    (Consistent (earlier ++ [definition]) ∧ addBySource (firstOfEach earlier) definition =
        .ok (firstOfEach (earlier ++ [definition]))) ∨
      ∃ cause, Offends earlier definition cause ∧
        addBySource (firstOfEach earlier) definition = .error cause := by
  by_cases hnamed : definition.name = ""
  · exact .inr ⟨.unnamed, .unnamed hnamed, if_pos hnamed⟩
  rw [addBySource, if_neg hnamed, find?_firstOfEach, firstOfEach_concat]
  cases hfind : earlier.find? (·.name == definition.name) with
  | none =>
      refine .inl ⟨hconsistent.concat hnamed ?_, rfl⟩
      intro known hknown hname
      obtain ⟨found, hfound⟩ := exists_find?_name hknown hname
      rw [hfind] at hfound
      cases hfound
  | some known =>
      obtain ⟨hknown, hname⟩ := mem_of_find?_name hfind
      by_cases hsource : known.source = definition.source
      · refine .inl ⟨hconsistent.concat hnamed ?_, if_pos hsource⟩
        intro other hother hsame
        rw [← hsource]
        exact hconsistent.agree other hother known hknown (hsame.trans hname.symm)
      · exact .inr ⟨_, .conflict hnamed hknown hname hsource, if_neg hsource⟩

/-- A merge ends with the first definition of each name, or with the first definition that does not
go with those before it. -/
theorem foldlM_addBySource (definitions : List Definition) :
    (Consistent definitions ∧
        definitions.foldlM addBySource [] = .ok (firstOfEach definitions)) ∨
      ∃ earlier definition later cause, definitions = earlier ++ definition :: later ∧
        Consistent earlier ∧ Offends earlier definition cause ∧
        definitions.foldlM addBySource [] = .error cause := by
  -- From the end of the list, since the merged list grows at its end.
  induction definitions using List.reverseRecOn with
  | nil => exact .inl ⟨⟨by simp, by simp⟩, rfl⟩
  | append_singleton front last ih =>
      rw [List.foldlM_append]
      rcases ih with ⟨hconsistent, hfront⟩ | ⟨earlier, definition, later, cause, hsplit, hrest⟩
      · rw [hfront]
        have hlast : ([last].foldlM addBySource (firstOfEach front)) =
            addBySource (firstOfEach front) last := by
          simp
        rcases addBySource_firstOfEach hconsistent last with ⟨hall, hadd⟩ | ⟨cause, hoffends, hadd⟩
        · exact .inl ⟨hall, hlast.trans hadd⟩
        · exact .inr ⟨front, last, [], cause, rfl, hconsistent, hoffends, hlast.trans hadd⟩
      · obtain ⟨hconsistent, hoffends, hfront⟩ := hrest
        refine .inr ⟨earlier, definition, later ++ [last], cause, ?_, hconsistent, hoffends, ?_⟩
        · rw [hsplit, List.append_assoc, List.cons_append]
        · rw [hfront]
          rfl

theorem mergeDefinitions_eq_ok_iff {lists : List (List Definition)} {merged : List Definition}
    (hcollisionless : Collisionless lists.flatten) :
    mergeDefinitions lists = .ok merged ↔
      Consistent lists.flatten ∧ merged = firstOfEach lists.flatten := by
  rw [mergeDefinitions_eq_bySource hcollisionless]
  rcases foldlM_addBySource lists.flatten with
    ⟨hconsistent, hfold⟩ | ⟨earlier, definition, later, cause, hsplit, _, hoffends, hfold⟩
  · rw [hfold]
    simp [hconsistent, eq_comm]
  · have hinconsistent : ¬ Consistent lists.flatten := by
      rw [hsplit]
      exact hoffends.not_consistent
    rw [hfold]
    simp [hinconsistent]

theorem offends_of_mergeDefinitions {lists : List (List Definition)} {cause : MergeError}
    (hcollisionless : Collisionless lists.flatten)
    (hmerge : mergeDefinitions lists = .error cause) :
    ∃ earlier definition later, lists.flatten = earlier ++ definition :: later ∧
      Consistent earlier ∧ Offends earlier definition cause := by
  rw [mergeDefinitions_eq_bySource hcollisionless] at hmerge
  rcases foldlM_addBySource lists.flatten with
    ⟨_, hfold⟩ | ⟨earlier, definition, later, other, hsplit, hearlier, hoffends, hfold⟩
  · rw [hfold] at hmerge
    cases hmerge
  · rw [hfold, Except.error.injEq] at hmerge
    subst hmerge
    exact ⟨earlier, definition, later, hsplit, hearlier, hoffends⟩

theorem mergeDefinitions_again {lists : List (List Definition)} {merged : List Definition}
    (hcollisionless : Collisionless lists.flatten) (hmerge : mergeDefinitions lists = .ok merged) :
    mergeDefinitions [merged] = .ok merged := by
  obtain ⟨hconsistent, rfl⟩ := (mergeDefinitions_eq_ok_iff hcollisionless).mp hmerge
  have hsubset : [firstOfEach lists.flatten].flatten ⊆ lists.flatten := by
    rw [List.flatten_singleton]
    exact (firstOfEach_sublist _).subset
  rw [mergeDefinitions_eq_ok_iff (hcollisionless.subset hsubset)]
  refine ⟨hconsistent.subset hsubset, ?_⟩
  rw [List.flatten_singleton, firstOfEach_of_distinctNames (distinctNames_firstOfEach _)]

theorem mergeDefinitions_append {front back : List (List Definition)}
    (hcollisionless : Collisionless (front ++ back).flatten) :
    (mergeDefinitions front >>= fun merged => mergeDefinitions (merged :: back)) =
      mergeDefinitions (front ++ back) := by
  have hwhole := mergeDefinitions_eq_bySource hcollisionless
  rw [List.flatten_append] at hcollisionless
  have hfront := hcollisionless.subset (List.subset_append_left _ _)
  rw [hwhole, List.flatten_append, List.foldlM_append, ← mergeDefinitions_eq_bySource hfront]
  cases hmerge : mergeDefinitions front with
  | error cause => rfl
  | ok merged =>
      have hsubset : merged ⊆ front.flatten := by
        rw [((mergeDefinitions_eq_ok_iff hfront).mp hmerge).2]
        exact (firstOfEach_sublist _).subset
      have hmerged : Collisionless (merged :: back).flatten :=
        hcollisionless.subset (List.append_subset.mpr
          ⟨List.Subset.trans hsubset (List.subset_append_left _ _), List.subset_append_right _ _⟩)
      have hagain := mergeDefinitions_again hfront hmerge
      rw [mergeDefinitions_eq_bySource (by simpa using hfront.subset hsubset),
        List.flatten_singleton] at hagain
      calc mergeDefinitions (merged :: back)
          = (merged ++ back.flatten).foldlM addBySource [] :=
            mergeDefinitions_eq_bySource hmerged
        _ = back.flatten.foldlM addBySource merged := by
            rw [List.foldlM_append, hagain]
            rfl

theorem exists_mem_firstOfEach {definitions : List Definition}
    (hconsistent : Consistent definitions) {definition : Definition}
    (hmember : definition ∈ definitions) :
    ∃ kept ∈ firstOfEach definitions,
      kept.name = definition.name ∧ kept.source = definition.source := by
  obtain ⟨kept, hfind⟩ := exists_find?_name hmember rfl
  obtain ⟨hkept, hname⟩ := mem_of_find?_name hfind
  rw [← find?_firstOfEach] at hfind
  exact ⟨kept, List.mem_of_find?_eq_some hfind, hname,
    hconsistent.agree kept hkept definition hmember hname⟩

/-- Without collisions, a merge is one by names and sources. -/
theorem mergeDefinitions_bySource {lists : List (List Definition)}
    (hcollisionless : Collisionless lists.flatten) :
    ((∃ merged, mergeDefinitions lists = .ok merged) ↔ Consistent lists.flatten) ∧
      (∀ merged, mergeDefinitions lists = .ok merged →
        merged = firstOfEach lists.flatten ∧ DistinctNames merged ∧
          (∀ definition ∈ lists.flatten, ∃ kept ∈ merged,
            kept.name = definition.name ∧ kept.source = definition.source) ∧
          mergeDefinitions [merged] = .ok merged) ∧
      (∀ cause, mergeDefinitions lists = .error cause →
        ∃ earlier definition later, lists.flatten = earlier ++ definition :: later ∧
          Consistent earlier ∧ Offends earlier definition cause ∧
          cause.message =
            if definition.name = "" then "definition with empty name"
            else "conflicting definitions of " ++ Text.quoted definition.name ++ ":\n" ++
              definition.source) ∧
      ∀ front back, lists = front ++ back →
        (mergeDefinitions front >>= fun merged => mergeDefinitions (merged :: back)) =
          mergeDefinitions lists := by
  refine ⟨?_, ?_, ?_, ?_⟩
  · simp [mergeDefinitions_eq_ok_iff hcollisionless]
  · intro merged hmerge
    have hagain := mergeDefinitions_again hcollisionless hmerge
    obtain ⟨hconsistent, rfl⟩ := (mergeDefinitions_eq_ok_iff hcollisionless).mp hmerge
    refine ⟨rfl, distinctNames_firstOfEach _, ?_, hagain⟩
    intro definition hmember
    exact exists_mem_firstOfEach hconsistent hmember
  · intro cause hmerge
    obtain ⟨earlier, definition, later, hsplit, hearlier, hoffends⟩ :=
      offends_of_mergeDefinitions hcollisionless hmerge
    exact ⟨earlier, definition, later, hsplit, hearlier, hoffends, hoffends.message_eq⟩
  · rintro front back rfl
    exact mergeDefinitions_append hcollisionless

/-- Two lists that agree on a shared definition, and one that redefines another and has a definition
without a name. -/
def overlapping : List (List Definition) :=
  [[⟨"tint", "float", [], []⟩, ⟨"shade", "float", [], []⟩],
    [⟨"shade", "float", [], []⟩, ⟨"glow", "float", [], []⟩],
    [⟨"tint", "vec3", [], []⟩, ⟨"", "float", [], []⟩]]

theorem mergeDefinitions_bySource_overlapping :
    Collisionless overlapping.flatten ∧
      (∃ merged, mergeDefinitions (overlapping.take 2) = .ok merged ∧
        merged.map Definition.name = ["tint", "shade", "glow"]) ∧
      ∃ earlier definition later, overlapping.flatten = earlier ++ definition :: later ∧
        Offends earlier definition (.conflict "tint" "vec3 tint() \x7b\n\x7d") := by
  have hcollisionless : Collisionless overlapping.flatten :=
    ⟨by decide, by decide, by decide⟩
  have hagreeing : Collisionless (overlapping.take 2).flatten :=
    ⟨by decide, by decide, by decide⟩
  have hconsistent : Consistent (overlapping.take 2).flatten := ⟨by decide, by decide⟩
  have hconflict : mergeDefinitions overlapping =
      .error (.conflict "tint" "vec3 tint() \x7b\n\x7d") := by rfl
  obtain ⟨hsuccess, hresult, -, -⟩ := mergeDefinitions_bySource hagreeing
  obtain ⟨-, -, hfailure, -⟩ := mergeDefinitions_bySource hcollisionless
  obtain ⟨merged, hmerge⟩ := hsuccess.mpr hconsistent
  obtain ⟨hmerged, -⟩ := hresult merged hmerge
  obtain ⟨earlier, definition, later, hsplit, -, hoffends, -⟩ := hfailure _ hconflict
  refine ⟨hcollisionless, ⟨merged, hmerge, ?_⟩, earlier, definition, later, hsplit, hoffends⟩
  rw [hmerged]
  rfl

end NoiseShader
