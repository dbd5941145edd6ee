import NoiseShader.Proofs.Program.Creation
import NoiseShader.Proofs.Syntax.Containment
import Mathlib.Tactic

/-!
# Walks and searches

A walk calls its callback on the nodes of a tree in the order of the listing
`Node.preorder` until the callback answers `false`.  In every lawful monad the
walk of a tree without references is therefore the walk along its listing, and a
callback that keeps a state receives it from the node before.

A search of a program is such a walk along the listings of its definitions and of
its entry, which stops at the first node that satisfies the condition.  The name
of the environment is found by a walk of the entry that stops at the first named
block.
-/

namespace NoiseShader

/-! ## Walks along listings -/

namespace Node

section Listing

variable {m : Type → Type} [Monad m] [LawfulMonad m] {visit : Node → m Bool}

theorem allM_append (front rest : List Node) :
    (front ++ rest).allM visit =
      (do if ← front.allM visit then rest.allM visit else pure false) := by
  induction front with
  | nil => simp
  | cons node front ih =>
      simp only [List.cons_append, List.allM_cons, ih, bind_assoc]
      congr 1
      funext answer
      cases answer <;> simp

/-- One step of a walk: the root, and then its children if the callback lets it go on. -/
theorem walk_eq {node : Node} (hpresent : node ≠ absent) (hvalue : node.isReference = false) :
    node.walk visit =
      (do if ← (visit node : ExceptT UnknownNode m Bool) then walkAll visit node.children
          else pure false) := by
  have hlast : ∀ x : ExceptT UnknownNode m Bool,
      (do if ← x then pure true else pure false) = x := by
    intro x
    calc (do if ← x then pure true else pure false)
        = x >>= pure := by
          congr 1
          funext answer
          cases answer <;> rfl
      _ = x := bind_pure x
  cases node with
  | absent => exact absurd rfl hpresent
  | reference target => cases hvalue
  | _ => simp only [walk, walkAll, children, hlast]

/-- Walking through trees whose walks follow their listings follows the joined listing. -/
theorem walkAll_eq_allM {nodes : List Node}
    (hnodes : ∀ node ∈ nodes, node.walk visit = (node.preorder.allM visit : m Bool)) :
    walkAll visit nodes = ((preorderAll nodes).allM visit : m Bool) := by
  induction nodes with
  | nil => simp [walkAll, preorderAll]
  | cons node rest ih =>
      have hrest := ih fun other hother => hnodes other (List.mem_cons_of_mem _ hother)
      rw [walkAll, hnodes node List.mem_cons_self, hrest, preorderAll, allM_append, liftM_bind]
      congr 1
      funext answer
      cases answer <;> simp

theorem Known.child {node child : Node} (hknown : node.Known) (hchild : child ∈ node.children) :
    child.Known :=
  fun target hcontains => hknown target (.inside hchild hcontains)

/-- A walk of a tree without references is a walk along the listing of its nodes. -/
theorem walk_eq_allM {node : Node} (hknown : node.Known) :
    node.walk visit = (node.preorder.allM visit : m Bool) := by
  by_cases habsent : node = absent
  · subst habsent
    simp [walk, preorder]
  · have hvalue : node.isReference = false := by
      cases node with
      | reference target => exact absurd (.self _) (hknown target)
      | _ => rfl
    have hchildren : ∀ child ∈ node.children,
        child.walk visit = (child.preorder.allM visit : m Bool) := by
      intro child hchild
      have hsmaller := sizeOf_lt_of_mem_children hchild
      exact walk_eq_allM (hknown.child hchild)
    rw [walk_eq habsent hvalue, walkAll_eq_allM hchildren, preorder_eq habsent, List.allM_cons,
      liftM_bind]
    congr 1
    funext answer
    cases answer <;> simp
termination_by sizeOf node

theorem walkAll_eq_allM_of_known {nodes : List Node} (hknown : ∀ node ∈ nodes, node.Known) :
    walkAll visit nodes = ((preorderAll nodes).allM visit : m Bool) :=
  walkAll_eq_allM fun node hnode => walk_eq_allM (hknown node hnode)

end Listing

/-! ## Callbacks with a state -/

section State

variable {σ : Type}

theorem run_run_lift {α : Type} (action : StateM σ α) (start : σ) :
    (action : ExceptT UnknownNode (StateM σ) α).run.run start =
      (.ok (action.run start).1, (action.run start).2) := rfl

/-- A scan of a list by a callback with a state: the callback is called on one node after the
other, each time with the state that the call before has left, up to the first node on which it
answers `false`. -/
inductive Scans (visit : Node → StateM σ Bool) :
    List Node → (start : σ) → (calls : List Node) → (completed : Bool) → (final : σ) → Prop
  | done (state : σ) : Scans visit [] state [] true state
  | stop {node : Node} {rest : List Node} {state final : σ}
      (hanswer : (visit node).run state = (false, final)) :
      Scans visit (node :: rest) state [node] false final
  | next {node : Node} {rest calls : List Node} {state after final : σ} {completed : Bool}
      (hanswer : (visit node).run state = (true, after))
      (hrest : Scans visit rest after calls completed final) :
      Scans visit (node :: rest) state (node :: calls) completed final

/-- A callback that also notes the nodes on which it is called. -/
def noting (visit : Node → StateM σ Bool) (node : Node) : StateM (List Node × σ) Bool := do
  let (calls, state) ← get
  let (answer, after) := (visit node).run state
  set (calls ++ [node], after)
  return answer

theorem run_noting (visit : Node → StateM σ Bool) (node : Node) (calls : List Node) (state : σ) :
    (noting visit node).run (calls, state) =
      (((visit node).run state).1, (calls ++ [node], ((visit node).run state).2)) := rfl

theorem run_allM_cons (visit : Node → StateM σ Bool) (node : Node) (rest : List Node)
    (state : σ) :
    ((node :: rest).allM visit).run state =
      if ((visit node).run state).1 then (rest.allM visit).run ((visit node).run state).2
      else (false, ((visit node).run state).2) := by
  rw [List.allM_cons]
  change StateT.run (if ((visit node).run state).1 then _ else _) _ = _
  split <;> rfl

theorem exists_scans (visit : Node → StateM σ Bool) (nodes : List Node) (start : σ) :
    ∃ calls completed final, Scans visit nodes start calls completed final ∧
      (nodes.allM visit).run start = (completed, final) ∧
      ∀ before, (nodes.allM (noting visit)).run (before, start) =
        (completed, (before ++ calls, final)) := by
  induction nodes generalizing start with
  | nil => exact ⟨[], true, start, .done start, rfl, fun before => by simp; rfl⟩
  | cons node rest ih =>
      cases hanswer : (visit node).run start with
      | mk answer after =>
          cases answer with
          | false =>
              refine ⟨[node], false, after, .stop hanswer, ?_, fun before => ?_⟩
              · rw [run_allM_cons, hanswer]
                rfl
              · rw [run_allM_cons, run_noting, hanswer]
                rfl
          | true =>
              obtain ⟨calls, completed, final, hscans, hrun, hnoted⟩ := ih after
              refine ⟨node :: calls, completed, final, .next hanswer hscans, ?_, fun before => ?_⟩
              · rw [run_allM_cons, hanswer]
                exact hrun
              · rw [run_allM_cons, run_noting, hanswer, List.append_cons before node calls]
                exact hnoted (before ++ [node])

end State

end Node

/-! ## Searches -/

namespace Program

section Search

variable {m : Type → Type} [Monad m] [LawfulMonad m]

/-- The nodes of a program: those of its definitions in order and then those of its entry. -/
def nodes (program : Program) : List Node := Node.preorderAll program.trees

/-- The callback of a search, which stops at a node that satisfies the condition. -/
def stoppingAt (condition : Node → m Bool) (node : Node) : StateT (Option Node) m Bool := do
  if ← condition node then
    set (some node)
    return false
  else return true

theorem run_stoppingAt (condition : Node → m Bool) (node : Node) (found : Option Node) :
    (stoppingAt condition node).run found =
      (fun answer => if answer then (false, some node) else (true, found)) <$> condition node := by
  simp only [stoppingAt, StateT.run_bind, map_eq_pure_bind]
  simp only [StateT.run_monadLift, monadLift_self, bind_assoc, pure_bind]
  congr 1
  funext answer
  cases answer <;> simp

theorem run_allM_stoppingAt (condition : Node → m Bool) (listing : List Node) :
    (listing.allM (stoppingAt condition)).run none =
      (fun found => (found.isNone, found)) <$> listing.findM? condition := by
  induction listing with
  | nil => simp
  | cons node rest ih =>
      rw [List.allM_cons, List.findM?, StateT.run_bind, run_stoppingAt, map_bind, bind_map_left]
      congr 1
      funext answer
      cases answer with
      | false => exact ih
      | true => simp

theorem findM?_eq {program : Program} (hknown : ∀ tree ∈ program.trees, tree.Known)
    (condition : Node → m Bool) :
    program.findM? condition = (program.nodes.findM? condition : m (Option Node)) := by
  have hwalk : program.walk (stoppingAt condition) =
      (program.nodes.allM (stoppingAt condition) : StateT (Option Node) m Bool) :=
    Node.walkAll_eq_allM_of_known hknown
  change ExceptT.mk (do
    let result ← (program.walk (stoppingAt condition)).run.run none
    return result.1.map fun _ => result.2) = _
  rw [hwalk]
  apply ExceptT.ext
  simp [run_allM_stoppingAt, Except.map]

theorem existsM_eq {program : Program} (hknown : ∀ tree ∈ program.trees, tree.Known)
    (condition : Node → m Bool) :
    program.existsM condition =
      (Option.isSome <$> program.nodes.findM? condition : m Bool) := by
  unfold existsM
  rw [findM?_eq hknown, bind_pure_comp, liftM_map]

end Search

/-- A condition that notes the nodes on which it is asked. -/
def noted (condition : Node → Bool) (node : Node) : StateM (List Node) Bool := do
  modify (· ++ [node])
  return condition node

theorem run_findM?_noted (condition : Node → Bool) (listing asked : List Node) :
    (listing.findM? (noted condition)).run asked =
      (listing.find? condition, asked ++ listing.take (listing.findIdx condition + 1)) := by
  induction listing generalizing asked with
  | nil =>
      rw [List.take_nil, List.append_nil]
      rfl
  | cons node rest ih =>
      have hstep : ((node :: rest).findM? (noted condition)).run asked =
          if condition node then (some node, asked ++ [node])
          else (rest.findM? (noted condition)).run (asked ++ [node]) := by
        rw [List.findM?]
        change StateT.run (match condition node with | true => _ | false => _) _ = _
        cases condition node <;> rfl
      rw [hstep, List.find?_cons, List.findIdx_cons]
      cases condition node with
      | true => simp
      | false => simp [ih]

/-! ## The environment -/

/-- The callback that looks for the block which opens the environment. -/
def notingEnvironment (node : Node) : StateM String Bool := do
  match node.environmentName? with
  | some name =>
    set name
    return false
  | none => return true

theorem run_allM_notingEnvironment (listing : List Node) :
    (listing.allM notingEnvironment).run "" =
      ((listing.findSome? Node.environmentName?).isNone,
        (listing.findSome? Node.environmentName?).getD "") := by
  induction listing with
  | nil => rfl
  | cons node rest ih =>
      rw [Node.run_allM_cons, List.findSome?_cons]
      unfold notingEnvironment
      cases hname : node.environmentName? with
      | some name => rfl
      | none => exact ih

/-- The first named block of a listing gives the environment its name. -/
inductive FirstNamed : List Node → String → Prop
  | unnamed {listing : List Node} (hnone : ∀ node ∈ listing, node.environmentName? = none) :
      FirstNamed listing ""
  | named {front statements rest : List Node} {name : String} (hname : name ≠ "")
      (hfront : ∀ node ∈ front, node.environmentName? = none) :
      FirstNamed (front ++ .block name statements :: rest) name

theorem firstNamed_environment (program : Program) :
    FirstNamed program.main.preorder program.environment := by
  unfold environment
  cases hfound : program.main.preorder.findSome? Node.environmentName? with
  | none => exact .unnamed (List.findSome?_eq_none_iff.mp hfound)
  | some name =>
      obtain ⟨front, block, rest, hlisting, hblock, hfront⟩ := List.findSome?_eq_some_iff.mp hfound
      rw [hlisting]
      cases block with
      | block found statements =>
          simp only [Node.environmentName?, Option.ite_none_left_eq_some, Option.some.injEq]
            at hblock
          obtain ⟨hname, rfl⟩ := hblock
          exact .named hname hfront
      | _ => cases hblock

/-! ## Main result -/

/-- A walk calls its callback along the listing of the tree up to the first answer `false` and
passes the state on in this order.  A search asks its condition along the listing of the program up
to the first node that satisfies it, which is what it returns, and the walk of the entry that
stops at the first named block leaves the name of the environment. -/
theorem traversals_follow_preorder {σ : Type} {tree : Node} (htree : tree.Known)
    {program : Program} (hprogram : ∀ tree ∈ program.trees, tree.Known)
    (visit : Node → StateM σ Bool) (start : σ) (condition : Node → Bool) :
    (∃ calls completed final, Node.Scans visit tree.preorder start calls completed final ∧
      (tree.walk visit).run.run start = (.ok completed, final) ∧
      (tree.walk (Node.noting visit)).run.run ([], start) = (.ok completed, (calls, final))) ∧
    (program.findM? (noted condition)).run.run [] =
      (.ok (program.nodes.find? condition),
        program.nodes.take (program.nodes.findIdx condition + 1)) ∧
    (program.existsM (noted condition)).run.run [] =
      (.ok (program.nodes.any condition),
        program.nodes.take (program.nodes.findIdx condition + 1)) ∧
    FirstNamed program.main.preorder program.environment ∧
    ∃ completed, (program.main.walk notingEnvironment).run.run "" =
      (.ok completed, program.environment) := by
  have hmain : program.main.Known :=
    hprogram program.main (List.mem_append_right _ (List.mem_singleton_self _))
  refine ⟨?_, ?_, ?_, firstNamed_environment program, ?_⟩
  · obtain ⟨calls, completed, final, hscans, hrun, hnoted⟩ :=
      Node.exists_scans visit tree.preorder start
    refine ⟨calls, completed, final, hscans, ?_, ?_⟩
    · rw [Node.walk_eq_allM htree, Node.run_run_lift, hrun]
    · rw [Node.walk_eq_allM htree, Node.run_run_lift, hnoted, List.nil_append]
  · rw [findM?_eq hprogram, Node.run_run_lift, run_findM?_noted, List.nil_append]
  · rw [existsM_eq hprogram, Node.run_run_lift, ← List.isSome_find?]
    change (Except.ok (Option.isSome ((program.nodes.findM? (noted condition)).run []).1),
      ((program.nodes.findM? (noted condition)).run []).2) = _
    rw [run_findM?_noted, List.nil_append]
  · rw [Node.walk_eq_allM hmain, Node.run_run_lift, run_allM_notingEnvironment]
    exact ⟨_, rfl⟩

/-- A program with a declaration that has no value, and with a call inside an assignment. -/
def dimming : Program :=
  ⟨[⟨"dim", "float", [⟨"float", "x"⟩],
      [.result (.binary "*" (.identifier "x") (.literal (.float 0.5)))]⟩],
    .block "view"
      [.declaration "float" "v" .absent,
        .assignment (.identifier "v") (.call "dim" [.identifier "v"])]⟩

/-- A callback that stops after as many nodes as its state says. -/
def countdown (_ : Node) : StateM ℕ Bool := do
  let left ← get
  set (left - 1)
  return 1 < left

theorem traversals_follow_preorder_dimming :
    (∃ calls completed final,
      Node.Scans countdown dimming.main.preorder 3 calls completed final ∧
      (dimming.main.walk countdown).run.run 3 = (.ok completed, final) ∧
      (dimming.main.walk (Node.noting countdown)).run.run ([], 3) =
        (.ok completed, (calls, final))) ∧
    (∃ asked, (dimming.findM? (noted fun node => node.calledName? == some "dim")).run.run [] =
      (.ok (some (.call "dim" [.identifier "v"])), asked) ∧ asked.length = 10) ∧
    FirstNamed dimming.main.preorder "view" := by
  have hknown : ∀ tree ∈ dimming.trees, tree.Known := by
    have hnone : dimming.trees.map Node.unknown? = [none, none] := rfl
    intro tree htree
    have hmember : tree.unknown? ∈ [none, none] := hnone ▸ List.mem_map_of_mem htree
    exact Node.unknown?_eq_none.mp (by simpa using hmember)
  have hmain : dimming.main.Known := hknown _ (by simp [trees])
  have hfollows := traversals_follow_preorder hmain hknown countdown 3
    fun node => node.calledName? == some "dim"
  exact ⟨hfollows.1, ⟨_, hfollows.2.1, rfl⟩, hfollows.2.2.2.1⟩

end Program

end NoiseShader
