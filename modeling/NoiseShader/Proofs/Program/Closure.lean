import NoiseShader.Program.Basic
import NoiseShader.Proofs.Program.Naming
import NoiseShader.Proofs.Syntax.Containment

/-!
# Definitions reached through calls

A definition is reached from a list of trees if there is a chain of calls to it:
one of the trees calls the first definition of the chain, and the body of each
definition calls the next.

The search keeps a stack of trees and the definitions that no inspected tree has
called yet.  What a round does not change is the set of definitions that are
uncalled and reached from the stack through uncalled definitions, apart from those
that are called in this round.  When the stack is empty nothing is reached, so
what is left uncalled is what was not reached at the start.
-/

namespace NoiseShader

namespace Node

theorem mem_callees {node : Node} {names : List String} (hnames : node.callees = .ok names)
    {name : String} : name ∈ names ↔ node.Calls name := by
  unfold callees at hnames
  split at hnames
  next => cases hnames
  next =>
    cases hnames
    rw [List.mem_filterMap, calls_iff_mem_preorder]

theorem Known.callees {node : Node} (hknown : node.Known) : ∃ names, node.callees = .ok names := by
  rw [Node.callees, unknown?_eq_none.mpr hknown]
  exact ⟨_, rfl⟩

theorem known_of_callees {node : Node} {names : List String} (hnames : node.callees = .ok names) :
    node.Known := by
  unfold callees at hnames
  split at hnames
  next => cases hnames
  next hknown => exact unknown?_eq_none.mp hknown

end Node

/-- A chain of calls leads from one of the roots to a definition. -/
inductive Reached (definitions : List Definition) (roots : List Node) : Definition → Prop
  | start {root : Node} {definition : Definition} (hroot : root ∈ roots)
      (hmember : definition ∈ definitions) (hcalls : root.Calls definition.name) :
      Reached definitions roots definition
  | step {caller definition : Definition} (hcaller : Reached definitions roots caller)
      (hmember : definition ∈ definitions)
      (hcalls : ∃ statement ∈ caller.body, statement.Calls definition.name) :
      Reached definitions roots definition

theorem Reached.mem {definitions : List Definition} {roots : List Node} {definition : Definition}
    (hreached : Reached definitions roots definition) : definition ∈ definitions := by
  cases hreached with
  | start hroot hmember hcalls => exact hmember
  | step hcaller hmember hcalls => exact hmember

theorem Reached.of_calls {definitions kept : List Definition} {roots : List Node}
    (hkept : ∀ caller ∈ kept, Reached definitions roots caller) {tree : Node}
    (htree : tree ∈ kept.map Definition.toNode ++ roots) {definition : Definition}
    (hmember : definition ∈ definitions) (hcalls : tree.Calls definition.name) :
    Reached definitions roots definition := by
  rcases List.mem_append.mp htree with hdefinition | hroot
  · obtain ⟨caller, hcaller, rfl⟩ := List.mem_map.mp hdefinition
    exact .step (hkept caller hcaller) hmember (Definition.calls_iff.mp hcalls)
  · exact .start hroot hmember hcalls

namespace Reachable

/-! ## One round -/

variable {uncalled : List Definition} {pending : List Node} {names : List String}

theorem mem_eraseP_name (hdistinct : DistinctNames uncalled) {name : String}
    {definition : Definition} :
    definition ∈ uncalled.eraseP (·.name == name) ↔
      definition ∈ uncalled ∧ definition.name ≠ name := by
  induction uncalled with
  | nil => simp
  | cons first rest ih =>
      obtain ⟨hfirst, hrest⟩ := List.nodup_cons.mp hdistinct
      by_cases hname : first.name = name
      · rw [List.eraseP_cons_of_pos (by simpa using hname)]
        constructor
        · intro hmember
          refine ⟨List.mem_cons_of_mem _ hmember, fun hsame => hfirst ?_⟩
          rw [hname, ← hsame]
          exact List.mem_map_of_mem hmember
        · rintro ⟨hmember, hdifferent⟩
          rcases List.mem_cons.mp hmember with rfl | hmember
          · exact absurd hname hdifferent
          · exact hmember
      · rw [List.eraseP_cons_of_neg (by simpa using hname), List.mem_cons, ih hrest, List.mem_cons]
        constructor
        · rintro (rfl | ⟨hmember, hdifferent⟩)
          · exact ⟨.inl rfl, hname⟩
          · exact ⟨.inr hmember, hdifferent⟩
        · rintro ⟨rfl | hmember, hdifferent⟩
          · exact .inl rfl
          · exact .inr ⟨hmember, hdifferent⟩

/-- What enlisting names does to the uncalled definitions and to the stack. -/
structure Enlisted (uncalled : List Definition) (pending : List Node) (names : List String)
    (result : List Definition × List Node) : Prop where
  distinct : DistinctNames result.1
  mem_uncalled : ∀ definition, definition ∈ result.1 ↔
    definition ∈ uncalled ∧ definition.name ∉ names
  mem_pending : ∀ node, node ∈ result.2 ↔
    node ∈ pending ∨ ∃ definition ∈ uncalled, definition.name ∈ names ∧ node = definition.toNode
  length_eq : result.1.length + result.2.length = uncalled.length + pending.length

/-- A name of an uncalled definition puts it on the stack. -/
theorem Enlisted.called {definition : Definition} {result : List Definition × List Node}
    (hdistinct : DistinctNames uncalled) (hmember : definition ∈ uncalled)
    (hrest : Enlisted (uncalled.eraseP (·.name == definition.name)) (definition.toNode :: pending)
      names result) :
    Enlisted uncalled pending (definition.name :: names) result := by
  refine ⟨hrest.distinct, ?_, ?_, ?_⟩
  · intro other
    rw [hrest.mem_uncalled, mem_eraseP_name hdistinct]
    simp only [List.mem_cons, not_or]
    tauto
  · intro node
    rw [hrest.mem_pending, List.mem_cons]
    constructor
    · rintro ((rfl | hpending) | ⟨other, hother, hnamed, rfl⟩)
      · exact .inr ⟨definition, hmember, List.mem_cons_self, rfl⟩
      · exact .inl hpending
      · exact .inr ⟨other, ((mem_eraseP_name hdistinct).mp hother).1,
          List.mem_cons_of_mem _ hnamed, rfl⟩
    · rintro (hpending | ⟨other, hother, hnamed, rfl⟩)
      · exact .inl (.inr hpending)
      · by_cases hsame : other.name = definition.name
        · have heq := hdistinct.eq_of_name hother hmember hsame
          exact .inl (.inl (by rw [heq]))
        · refine .inr ⟨other, (mem_eraseP_name hdistinct).mpr ⟨hother, hsame⟩, ?_, rfl⟩
          exact (List.mem_cons.mp hnamed).resolve_left hsame
  · rw [hrest.length_eq, List.length_eraseP_of_mem hmember (by simp), List.length_cons]
    have hpos := List.length_pos_of_mem hmember
    omega

theorem Enlisted.skipped {name : String} {result : List Definition × List Node}
    (hnone : ∀ definition ∈ uncalled, definition.name ≠ name)
    (hrest : Enlisted uncalled pending names result) :
    Enlisted uncalled pending (name :: names) result := by
  refine ⟨hrest.distinct, ?_, ?_, hrest.length_eq⟩
  · intro definition
    rw [hrest.mem_uncalled]
    simp only [List.mem_cons, not_or]
    have hdifferent := hnone definition
    tauto
  · intro node
    rw [hrest.mem_pending]
    constructor
    · rintro (hpending | ⟨definition, hmember, hnamed, rfl⟩)
      · exact .inl hpending
      · exact .inr ⟨definition, hmember, List.mem_cons_of_mem _ hnamed, rfl⟩
    · rintro (hpending | ⟨definition, hmember, hnamed, rfl⟩)
      · exact .inl hpending
      · exact .inr ⟨definition, hmember,
          (List.mem_cons.mp hnamed).resolve_left (hnone definition hmember), rfl⟩

theorem enlisted (hdistinct : DistinctNames uncalled) (pending : List Node)
    (names : List String) :
    Enlisted uncalled pending names (enlist uncalled pending names) := by
  induction names generalizing uncalled pending with
  | nil => exact ⟨hdistinct, by simp [enlist], by simp [enlist], rfl⟩
  | cons name rest ih =>
      unfold enlist
      split
      next definition hfind =>
        obtain ⟨hmember, rfl⟩ := mem_of_find?_name hfind
        exact .called hdistinct hmember (ih (hdistinct.sublist List.eraseP_sublist) _)
      next hfind =>
        exact .skipped (by simpa using hfind) (ih hdistinct pending)

/-- A round moves the definitions that the inspected tree calls onto the stack, and keeps what is
reached otherwise. -/
theorem Enlisted.reached_iff {node : Node} {result : List Definition × List Node}
    (hresult : Enlisted uncalled pending names result)
    (hnames : ∀ name, name ∈ names ↔ node.Calls name) {definition : Definition} :
    Reached uncalled (node :: pending) definition ↔
      definition ∈ uncalled ∧ (definition ∉ result.1 ∨ Reached result.1 result.2 definition) := by
  constructor
  · intro hreached
    refine ⟨hreached.mem, ?_⟩
    induction hreached with
    | @start root definition hroot hmember hcalls =>
        by_cases hcalled : definition ∈ result.1
        · have hnew := ((hresult.mem_uncalled _).mp hcalled).2
          rcases List.mem_cons.mp hroot with rfl | hpending
          · exact absurd ((hnames _).mpr hcalls) hnew
          · exact .inr (.start ((hresult.mem_pending _).mpr (.inl hpending)) hcalled hcalls)
        · exact .inl hcalled
    | @step caller definition hcaller hmember hcalls ih =>
        by_cases hcalled : definition ∈ result.1
        · refine .inr ?_
          rcases ih with hmoved | hlater
          · -- The caller was moved to the stack in this round.
            have hname : caller.name ∈ names := by
              by_contra hnew
              exact hmoved ((hresult.mem_uncalled _).mpr ⟨hcaller.mem, hnew⟩)
            have hstack : caller.toNode ∈ result.2 :=
              (hresult.mem_pending _).mpr (.inr ⟨caller, hcaller.mem, hname, rfl⟩)
            exact .start hstack hcalled (Definition.calls_iff.mpr hcalls)
          · exact .step hlater hcalled hcalls
        · exact .inl hcalled
  · rintro ⟨hmember, hmoved | hlater⟩
    · have hname : definition.name ∈ names := by
        by_contra hnew
        exact hmoved ((hresult.mem_uncalled _).mpr ⟨hmember, hnew⟩)
      exact .start List.mem_cons_self hmember ((hnames _).mp hname)
    · -- A chain from the new stack is a chain from the old one, possibly through `node`.
      clear hmember
      induction hlater with
      | @start root definition hroot hmember hcalls =>
          have huncalled := ((hresult.mem_uncalled _).mp hmember).1
          rcases (hresult.mem_pending _).mp hroot with hpending | ⟨caller, hcaller, hname, rfl⟩
          · exact .start (List.mem_cons_of_mem _ hpending) huncalled hcalls
          · exact .step (.start List.mem_cons_self hcaller ((hnames _).mp hname)) huncalled
              (Definition.calls_iff.mp hcalls)
      | @step caller definition hcaller hmember hcalls ih =>
          exact .step ih ((hresult.mem_uncalled _).mp hmember).1 hcalls

/-! ## The search -/

/-- The search without a bound on its rounds comes to an end, and some definitions are left
uncalled. -/
inductive Ends : List Definition → List Node → List Definition → Prop
  | done (uncalled : List Definition) : Ends uncalled [] uncalled
  | round {uncalled left : List Definition} {node : Node} {pending : List Node}
      {names : List String} (hnames : node.callees = .ok names)
      (hrest : Ends (enlist uncalled pending names).1 (enlist uncalled pending names).2 left) :
      Ends uncalled (node :: pending) left

/-- What is left uncalled was not reached. -/
theorem Ends.mem_iff {left : List Definition} (hends : Ends uncalled pending left)
    (hdistinct : DistinctNames uncalled) {definition : Definition} :
    definition ∈ left ↔ definition ∈ uncalled ∧ ¬ Reached uncalled pending definition := by
  induction hends with
  | done uncalled =>
      refine (and_iff_left ?_).symm
      intro hreached
      induction hreached with
      | start hroot => cases hroot
      | step _ _ _ ih => exact ih
  | @round uncalled left node pending names hnames hrest ih =>
      have hresult := enlisted hdistinct pending names
      rw [ih hresult.distinct, hresult.reached_iff fun name => Node.mem_callees hnames]
      have hsubset := (hresult.mem_uncalled definition).mp
      tauto

/-- The search ends within as many rounds as there are trees and definitions. -/
theorem search_ends (hdistinct : DistinctNames uncalled)
    (huncalled : ∀ definition ∈ uncalled, definition.toNode.Known)
    (hpending : ∀ node ∈ pending, node.Known) {rounds : ℕ}
    (hrounds : uncalled.length + pending.length ≤ rounds) :
    ∃ left, search rounds uncalled pending = .ok left ∧ Ends uncalled pending left := by
  induction rounds generalizing uncalled pending with
  | zero =>
      have hempty : pending = [] := List.eq_nil_of_length_eq_zero (by omega)
      subst hempty
      exact ⟨uncalled, by rw [search], .done uncalled⟩
  | succ rounds ih =>
      cases pending with
      | nil => exact ⟨uncalled, by rw [search], .done uncalled⟩
      | cons node pending =>
          obtain ⟨names, hnames⟩ := (hpending node List.mem_cons_self).callees
          have hresult := enlisted hdistinct pending names
          rw [List.length_cons] at hrounds
          have hlength := hresult.length_eq
          obtain ⟨left, hleft, hends⟩ := ih hresult.distinct
            (fun definition hmember =>
              huncalled definition ((hresult.mem_uncalled definition).mp hmember).1)
            (fun other hother => by
              rcases (hresult.mem_pending other).mp hother with hold | ⟨definition, hmember, -, rfl⟩
              · exact hpending other (List.mem_cons_of_mem _ hold)
              · exact huncalled definition hmember)
            (by omega)
          refine ⟨left, ?_, .round hnames hends⟩
          rw [search, hnames]
          exact hleft

/-- A search that does not fail has inspected every tree on the stack. -/
theorem known_of_search (hdistinct : DistinctNames uncalled) {rounds : ℕ}
    (hrounds : uncalled.length + pending.length ≤ rounds) {left : List Definition}
    (hleft : search rounds uncalled pending = .ok left) : ∀ node ∈ pending, node.Known := by
  induction rounds generalizing uncalled pending with
  | zero =>
      have hempty : pending = [] := List.eq_nil_of_length_eq_zero (by omega)
      simp [hempty]
  | succ rounds ih =>
      cases pending with
      | nil => simp
      | cons first rest =>
          rw [search] at hleft
          split at hleft
          next => cases hleft
          next names hnames =>
            have hresult := enlisted hdistinct rest names
            rw [List.length_cons] at hrounds
            have hlength := hresult.length_eq
            have hrest := ih hresult.distinct (by omega) hleft
            rintro node (_ | ⟨_, hnode⟩)
            · exact Node.known_of_callees hnames
            · exact hrest node ((hresult.mem_pending node).mpr (.inl hnode))

theorem visible_eq {definitions : List Definition} (hdistinct : DistinctNames definitions) :
    visible definitions = definitions := by
  induction definitions with
  | nil => rfl
  | cons definition rest ih =>
      obtain ⟨hnew, hrest⟩ := List.nodup_cons.mp hdistinct
      have hany : ¬ rest.any (·.name == definition.name) = true := by
        simpa using hnew
      rw [visible, if_neg hany, ih hrest]

end Reachable

/-! ## Reached definitions -/

variable {definitions : List Definition} {roots : List Node}

theorem Reached.mono {others : List Definition} {starts : List Node} {definition : Definition}
    (hreached : Reached definitions roots definition) (hroots : roots ⊆ starts)
    (hothers : ∀ other, Reached definitions roots other → other ∈ others) :
    Reached others starts definition := by
  induction hreached with
  | start hroot hmember hcalls =>
      exact .start (hroots hroot) (hothers _ (.start hroot hmember hcalls)) hcalls
  | step hcaller hmember hcalls ih =>
      exact .step ih (hothers _ (.step hcaller hmember hcalls)) hcalls

structure Searchable (definitions : List Definition) (roots : List Node) : Prop where
  distinct : DistinctNames definitions
  definitions_known : ∀ definition ∈ definitions, definition.toNode.Known
  roots_known : ∀ root ∈ roots, root.Known

theorem Searchable.reachable_eq (hsearchable : Searchable definitions roots) :
    ∃ kept left, reachable definitions roots = .ok kept ∧
      Reachable.Ends definitions roots.reverse left ∧ kept.Sublist definitions ∧
      ∀ definition, definition ∈ kept ↔ Reached definitions roots definition := by
  have hdistinct := hsearchable.distinct
  have hrounds : definitions.length + roots.reverse.length ≤ definitions.length + roots.length := by
    rw [List.length_reverse]
  obtain ⟨left, hleft, hends⟩ := Reachable.search_ends hdistinct hsearchable.definitions_known
    (fun root hroot => hsearchable.roots_known root (List.mem_reverse.mp hroot)) hrounds
  refine ⟨definitions.filter fun definition => !left.any (·.name == definition.name), left, ?_,
    hends, List.filter_sublist, ?_⟩
  · rw [reachable, Reachable.visible_eq hdistinct, hleft]
    rfl
  · intro definition
    rw [List.mem_filter, Bool.not_eq_true', ← Bool.not_eq_true, List.any_eq_true]
    constructor
    · rintro ⟨hmember, hkept⟩
      by_contra hunreached
      refine hkept
        ⟨definition, (hends.mem_iff hdistinct).mpr ⟨hmember, fun hreached => ?_⟩, by simp⟩
      exact hunreached (hreached.mono (List.reverse_subset.mpr (List.Subset.refl roots))
        fun other hother => hother.mem)
    · intro hreached
      refine ⟨hreached.mem, ?_⟩
      rintro ⟨other, hother, hname⟩
      obtain ⟨hmember, hunreached⟩ := (hends.mem_iff hdistinct).mp hother
      have hsame : other = definition :=
        hdistinct.eq_of_name hmember hreached.mem (by simpa using hname)
      subst hsame
      exact hunreached (hreached.mono (List.subset_reverse.mpr (List.Subset.refl roots))
        fun other hother => hother.mem)

theorem known_of_reachable (hdistinct : DistinctNames definitions) {kept : List Definition}
    (hkept : reachable definitions roots = .ok kept) : ∀ root ∈ roots, root.Known := by
  rw [reachable, Reachable.visible_eq hdistinct] at hkept
  cases hleft : Reachable.search (definitions.length + roots.length) definitions roots.reverse with
  | error cause => simp [hleft, bind, Except.bind] at hkept
  | ok left =>
      intro root hroot
      exact Reachable.known_of_search hdistinct (by rw [List.length_reverse]) hleft root
        (List.mem_reverse.mpr hroot)

/-! ## Pruned programs -/

theorem eq_of_sublist {kept : List Definition} (hdistinct : DistinctNames definitions)
    (hkept : kept.Sublist definitions) (hall : ∀ definition ∈ definitions, definition ∈ kept) :
    kept = definitions := by
  apply hkept.eq_of_length_le
  exact (hdistinct.of_map _).subperm hall |>.length_le

theorem Searchable.sublist {kept : List Definition} (hsearchable : Searchable definitions roots)
    (hkept : kept.Sublist definitions) : Searchable kept roots where
  distinct := hsearchable.distinct.sublist hkept
  definitions_known definition hmember :=
    hsearchable.definitions_known definition (hkept.subset hmember)
  roots_known := hsearchable.roots_known

theorem Searchable.reachable_idem (hsearchable : Searchable definitions roots)
    {kept : List Definition} (hkept : reachable definitions roots = .ok kept) :
    reachable kept roots = .ok kept := by
  obtain ⟨first, -, hfirst, -, hsublist, hreached⟩ := hsearchable.reachable_eq
  rw [hkept] at hfirst
  cases hfirst
  obtain ⟨second, -, hsecond, -, hsublist', hreached'⟩ :=
    (hsearchable.sublist hsublist).reachable_eq
  have hall : ∀ definition ∈ kept, definition ∈ second := by
    intro definition hmember
    rw [hreached']
    exact ((hreached definition).mp hmember).mono (List.Subset.refl roots)
      fun other hother => (hreached other).mpr hother
  rw [hsecond, eq_of_sublist (hsearchable.distinct.sublist hsublist) hsublist' hall]

/-- A name finds among the reached definitions what it finds among all of them, wherever it is
called. -/
theorem Searchable.find?_eq {main : Node} (hsearchable : Searchable definitions [main])
    {kept : List Definition} (hkept : reachable definitions [main] = .ok kept) {tree : Node}
    (htree : tree ∈ kept.map Definition.toNode ++ [main]) {name : String}
    (hcalls : tree.Calls name) :
    kept.find? (·.name == name) = definitions.find? (·.name == name) := by
  obtain ⟨first, -, hfirst, -, hsublist, hreached⟩ := hsearchable.reachable_eq
  rw [hkept] at hfirst
  cases hfirst
  cases hfind : definitions.find? (·.name == name) with
  | none =>
      rw [List.find?_eq_none] at hfind ⊢
      intro definition hmember
      exact hfind definition (hsublist.subset hmember)
  | some definition =>
      obtain ⟨hmember, rfl⟩ := mem_of_find?_name hfind
      apply (hsearchable.distinct.sublist hsublist).find?_name
      rw [hreached]
      exact .of_calls (fun caller => (hreached caller).mp) htree hmember hcalls

/-- The search ends, and keeps exactly the definitions to which a chain of calls leads, in their
own order.  Pruning a program twice is pruning it once, and every call in a pruned program finds
the definition that it found before. -/
theorem reachable_eq_call_closure (hdistinct : DistinctNames definitions)
    (hdefinitions : ∀ definition ∈ definitions, definition.toNode.Known) :
    (∀ roots : List Node, (∀ root ∈ roots, root.Known) →
      ∃ kept left, reachable definitions roots = .ok kept ∧
        Reachable.Ends definitions roots.reverse left ∧ kept.Sublist definitions ∧
        ∀ definition, definition ∈ kept ↔ Reached definitions roots definition) ∧
      ∀ main : Node, main.Known →
        ∃ pruned, Program.prune ⟨definitions, main⟩ = .ok pruned ∧ pruned.main = main ∧
          pruned.prune = .ok pruned ∧
          ∀ tree ∈ pruned.trees, ∀ name, tree.Calls name →
            pruned.definition? name = Program.definition? ⟨definitions, main⟩ name := by
  constructor
  · intro roots hroots
    exact Searchable.reachable_eq ⟨hdistinct, hdefinitions, hroots⟩
  · intro main hmain
    have hsearchable : Searchable definitions [main] :=
      ⟨hdistinct, hdefinitions, by simpa using hmain⟩
    obtain ⟨kept, -, hkept, -⟩ := hsearchable.reachable_eq
    refine ⟨⟨kept, main⟩, ?_, rfl, ?_, ?_⟩
    · rw [Program.prune, hkept]
      rfl
    · rw [Program.prune, hsearchable.reachable_idem hkept]
      rfl
    · intro tree htree name hcalls
      simp only [Program.definition?, List.find?_append]
      rw [hsearchable.find?_eq hkept htree hcalls]

/-- Two definitions that call each other are kept together, and one that calls them is not. -/
theorem reachable_eq_call_closure_mutual :
    let even : Definition := ⟨"even", "bool", [], [.result (.call "odd" [])]⟩
    let odd : Definition := ⟨"odd", "bool", [], [.result (.call "even" [])]⟩
    let idle : Definition := ⟨"idle", "bool", [], [.result (.call "odd" [])]⟩
    reachable [idle, odd, even] [.call "even" []] = .ok [odd, even] ∧
      ∀ definition, definition ∈ [odd, even] ↔
        Reached [idle, odd, even] [.call "even" []] definition := by
  intro even odd idle
  have hknown : ∀ definition ∈ [idle, odd, even], definition.toNode.Known := by
    intro definition hmember
    apply Node.unknown?_eq_none.mp
    simp only [List.mem_cons, List.not_mem_nil, or_false] at hmember
    rcases hmember with rfl | rfl | rfl <;> rfl
  have hroot : ∀ root ∈ [Node.call "even" []], root.Known := by
    intro root hmember
    cases List.mem_singleton.mp hmember
    exact Node.unknown?_eq_none.mp rfl
  obtain ⟨kept, -, hkept, -, -, hreached⟩ :=
    (reachable_eq_call_closure (by decide) hknown).1 [.call "even" []] hroot
  have hresult : reachable [idle, odd, even] [.call "even" []] = .ok [odd, even] := rfl
  rw [hresult] at hkept
  cases hkept
  exact ⟨hresult, hreached⟩

end NoiseShader
