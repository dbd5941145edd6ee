import NoiseShader.Proofs.Kernel.Cache
import Mathlib.Tactic

/-!
# What a cache counts

A kernel that writes down the batches it is given shows what a cache hands on.
Writing down changes nothing else, so a cache in front of such a kernel goes
through the same states.

A ledger is kept along a run: the positions of the successful evaluations since
the last reset, and those of them that the kernel was given.  The counters of the
cache, and the positions it knows, are read off the ledger.  Evaluations that fail
leave no entry, and nothing that is counted or known changes in them.
-/

namespace NoiseShader

variable {σ : Type}

/-- The kernel with a record of the batches it was given. -/
def Kernel.recorded (kernel : Kernel σ) : Kernel (σ × List (List Point)) where
  components := kernel.components
  evaluate positions values state :=
    let result := kernel.evaluate positions values state.1
    ⟨result.outcome, result.values, (result.state, state.2 ++ [positions])⟩

namespace Cached

/-! ## Recording -/

def State.unrecorded (state : State (σ × List (List Point))) : State σ :=
  ⟨state.known, state.store, state.work, state.hits, state.evaluations, state.inner.1⟩

variable {kernel : Kernel σ} {positions : List Point} {values : List Float32}

theorem lookUp_unrecorded (state : State (σ × List (List Point))) (components place : ℕ)
    (values : Array Float32) :
    lookUp state.unrecorded components positions place values =
      lookUp state components positions place values := by
  induction positions generalizing place values with
  | nil => rfl
  | cons position rest ih =>
      unfold lookUp
      simp only [ih]
      rfl

theorem evaluate_unrecorded (state : State (σ × List (List Point))) :
    evaluate kernel positions values state.unrecorded =
      ⟨(evaluate kernel.recorded positions values state).outcome,
        (evaluate kernel.recorded positions values state).values,
        (evaluate kernel.recorded positions values state).state.unrecorded⟩ := by
  unfold evaluate Kernel.recorded
  cases checkRoom positions values kernel.components with
  | error e => rfl
  | ok =>
      simp only [lookUp_unrecorded]
      simp only [State.unrecorded]
      split_ifs with hmissed
      · rfl
      · generalize kernel.evaluate _ _ state.inner.1 = result
        cases result.outcome <;> rfl

/-- The batches that an evaluation hands to the kernel. -/
def batches (kernel : Kernel σ) (positions : List Point) (values : List Float32)
    (state : State (σ × List (List Point))) : List (List Point) :=
  (evaluate kernel.recorded positions values state).state.inner.2.drop state.inner.2.length

/-! ## One evaluation -/

theorem Filling.mem_add {filling : Filling} {components : ℕ} {miss : Miss} {block : List Float32}
    {position : Point} :
    position ∈ (filling.add components miss block).known ↔
      position ∈ filling.known ∨ miss.position = position := by
  unfold add
  split_ifs with hknown
  · refine ⟨.inl, ?_⟩
    rintro (h | rfl)
    · exact h
    · exact hknown
  · rw [Std.HashMap.mem_insert, beq_iff_eq, or_comm]

theorem mem_fillIn {components : ℕ} {results : Array Float32} {missed : List Miss} {index : ℕ}
    {filling : Filling} {position : Point} :
    position ∈ (fillIn components results missed index filling).known ↔
      position ∈ filling.known ∨ position ∈ missed.map (·.position) := by
  induction missed generalizing index filling with
  | nil => simp [fillIn]
  | cons miss rest ih =>
      rw [fillIn, ih, Filling.mem_add, List.map_cons, List.mem_cons, or_assoc]
      tauto

theorem mem_missing {state : State σ} {position : Point} :
    position ∈ state.missing positions ↔ position ∈ positions ∧ position ∉ state.known := by
  simp [State.missing]

/-- What a successful evaluation does to what is known and counted, and what it hands on. -/
structure Answers (positions : List Point) (state next : State (σ × List (List Point)))
    (handed : List (List Point)) : Prop where
  evaluations : next.evaluations = state.evaluations + positions.length
  hits : next.hits + handed.flatten.length = state.hits + positions.length
  known : ∀ position, position ∈ next.known ↔ position ∈ state.known ∨ position ∈ positions
  handed : handed = if state.missing positions = [] then [] else [state.missing positions]

theorem Evaluates.answers {state : State (σ × List (List Point))}
    {result : Evaluation (State (σ × List (List Point)))}
    (hresult : Evaluates kernel.recorded positions values state result)
    (hok : result.outcome = .ok ()) :
    Answers positions state result.state
      (result.state.inner.2.drop state.inner.2.length) := by
  cases hresult with
  | refused | failed => cases hok
  | answered hroom hmissing =>
      have hknown : ∀ position ∈ positions, position ∈ state.known := by
        intro position hposition
        by_contra hnew
        have hmember := mem_missing.mpr ⟨hposition, hnew⟩
        rw [hmissing] at hmember
        cases hmember
      have hnothing : state.inner.2.drop state.inner.2.length = [] := List.drop_length
      constructor
      · rfl
      · simp [hnothing]
      · intro position
        exact ⟨.inl, fun h => h.elim id (hknown position)⟩
      · rw [if_pos hmissing]
        exact hnothing
  | stored work hroom hmissing houtcome =>
      have hhanded : (state.forwarded kernel.recorded positions).state.2.drop
          state.inner.2.length = [state.missing positions] := List.drop_left
      have hfewer := length_missing_le state positions
      constructor
      · rfl
      · simp only [hhanded, List.flatten_singleton]
        omega
      · intro position
        rw [State.filled, mem_fillIn, State.found, positions_lookUp, mem_missing]
        tauto
      · rw [if_neg hmissing]
        exact hhanded

/-- An evaluation that fails changes nothing that is known or counted. -/
theorem Evaluates.unchanged {state : State σ} {result : Evaluation (State σ)}
    (hresult : Evaluates kernel positions values state result) {e : EvaluationError}
    (herror : result.outcome = .error e) :
    result.state.known = state.known ∧ result.state.store = state.store ∧
      result.state.hits = state.hits ∧ result.state.evaluations = state.evaluations := by
  cases hresult with
  | refused | failed => exact ⟨rfl, rfl, rfl, rfl⟩
  | answered | stored => cases herror

/-! ## Ledgers -/

/-- A cache in front of a recording kernel, with the positions of the successful evaluations since
the last reset and the positions that these handed to the kernel. -/
structure Ledger (σ : Type) where
  cache : State (σ × List (List Point))
  answered : List Point
  forwarded : List Point

namespace Ledger

def opened (inner : σ) : Ledger σ := ⟨State.initial (inner, []), [], []⟩

def after (kernel : Kernel σ) (ledger : Ledger σ) : Operation → Ledger σ
  | .evaluate positions values =>
    let result := evaluate kernel.recorded positions values ledger.cache
    match result.outcome with
    | .ok () => ⟨result.state, ledger.answered ++ positions,
        ledger.forwarded ++ (batches kernel positions values ledger.cache).flatten⟩
    | .error _ => { ledger with cache := result.state }
  | .reset => ⟨ledger.cache.reset, [], []⟩

def ofRun (kernel : Kernel σ) (inner : σ) (operations : List Operation) : Ledger σ :=
  operations.foldl (after kernel) (opened inner)

theorem unrecorded_after (ledger : Ledger σ) (operation : Operation) :
    (ledger.after kernel operation).cache.unrecorded =
      Cached.after (wrap kernel) ledger.cache.unrecorded operation := by
  cases operation with
  | evaluate positions values =>
      change _ = (evaluate kernel positions values ledger.cache.unrecorded).state
      rw [evaluate_unrecorded, after]
      cases (evaluate kernel.recorded positions values ledger.cache).outcome <;> rfl
  | reset => rfl

/-- Recording changes nothing for the cache. -/
theorem unrecorded_ofRun (inner : σ) (operations : List Operation) :
    (ofRun kernel inner operations).cache.unrecorded =
      afterAll (wrap kernel) inner operations := by
  have hrun : ∀ ledger : Ledger σ,
      (operations.foldl (after kernel) ledger).cache.unrecorded =
        operations.foldl (Cached.after (wrap kernel)) ledger.cache.unrecorded := by
    induction operations with
    | nil =>
        intro ledger
        rfl
    | cons operation rest ih =>
        intro ledger
        rw [List.foldl_cons, List.foldl_cons, ih, unrecorded_after]
  exact hrun (opened inner)

/-- The counters and the positions in the cache are those of the ledger. -/
structure Balanced (ledger : Ledger σ) : Prop where
  evaluations : ledger.cache.evaluations = ledger.answered.length
  hits : ledger.cache.hits + ledger.forwarded.length = ledger.answered.length
  known : ∀ position, position ∈ ledger.cache.known ↔ position ∈ ledger.answered

theorem balanced_reset (state : State (σ × List (List Point))) :
    Balanced ⟨state.reset, [], []⟩ where
  evaluations := rfl
  hits := rfl
  known position := by simp [State.reset]

theorem Balanced.after {ledger : Ledger σ} (hbalanced : ledger.Balanced) (operation : Operation) :
    (ledger.after kernel operation).Balanced := by
  cases operation with
  | reset => exact balanced_reset ledger.cache
  | evaluate positions values =>
      have hresult := evaluates kernel.recorded positions values ledger.cache
      have hevaluations := hbalanced.evaluations
      have hhits := hbalanced.hits
      unfold Ledger.after
      cases houtcome : (evaluate kernel.recorded positions values ledger.cache).outcome with
      | error e =>
          obtain ⟨hknown, -, hsameHits, hsameCount⟩ := hresult.unchanged houtcome
          simp only [houtcome]
          constructor
          · rw [hsameCount, hevaluations]
          · rw [hsameHits, hhits]
          · rw [hknown]
            exact hbalanced.known
      | ok =>
          have hanswers := hresult.answers houtcome
          have hcounted := hanswers.evaluations
          have hspared := hanswers.hits
          simp only [houtcome]
          constructor
          · simp only [List.length_append]
            omega
          · simp only [List.length_append, batches]
            omega
          · intro position
            rw [hanswers.known, hbalanced.known, List.mem_append]

theorem balanced_ofRun (kernel : Kernel σ) (inner : σ) (operations : List Operation) :
    (ofRun kernel inner operations).Balanced := by
  have hrun : ∀ ledger : Ledger σ, ledger.Balanced →
      (operations.foldl (Ledger.after kernel) ledger).Balanced := by
    induction operations with
    | nil =>
        intro ledger hbalanced
        exact hbalanced
    | cons operation rest ih =>
        intro ledger hbalanced
        exact ih _ (hbalanced.after operation)
  exact hrun _ (balanced_reset (State.initial (inner, [])))

theorem Balanced.missing_eq {ledger : Ledger σ} (hbalanced : ledger.Balanced)
    (positions : List Point) :
    ledger.cache.missing positions = positions.filter (· ∉ ledger.answered) := by
  apply List.filter_congr
  intro position _
  have hknown := hbalanced.known position
  by_cases hanswered : position ∈ ledger.answered
  · simp [hanswered, hknown.mpr hanswered]
  · simp [hanswered, mt hknown.mp hanswered]

theorem Balanced.size_eq {ledger : Ledger σ} (hbalanced : ledger.Balanced) :
    ledger.cache.known.size = ledger.answered.toFinset.card := by
  have hkeys : ledger.cache.known.keys.toFinset = ledger.answered.toFinset := by
    ext position
    rw [List.mem_toFinset, List.mem_toFinset, Std.HashMap.mem_keys, hbalanced.known]
  rw [← hkeys, List.toFinset_card_of_nodup Std.HashMap.nodup_keys, Std.HashMap.length_keys]

end Ledger

/-- After any evaluations and resets the ledger gives the counters of a cache, the number of
positions that it knows, and what a successful evaluation will hand to the kernel; a failed one
changes nothing that is known or counted. -/
theorem statistics_of_ledger (kernel : Kernel σ) (inner : σ) (operations : List Operation) :
    let ledger := Ledger.ofRun kernel inner operations
    let state := afterAll (wrap kernel) inner operations
    state = ledger.cache.unrecorded ∧
      state.evaluations = ledger.answered.length ∧
      state.evaluations - state.hits = ledger.forwarded.length ∧
      state.hits ≤ state.evaluations ∧
      state.known.size = ledger.answered.toFinset.card ∧
      ∀ positions values,
        let result := (wrap kernel).evaluate positions values state
        result.outcome = (evaluate kernel.recorded positions values ledger.cache).outcome ∧
          (result.outcome = .ok () →
            batches kernel positions values ledger.cache =
              if ∀ position ∈ positions, position ∈ ledger.answered then []
              else [positions.filter (· ∉ ledger.answered)]) ∧
          ∀ e, result.outcome = .error e →
            result.state.known = state.known ∧ result.state.store = state.store ∧
              result.state.hits = state.hits ∧
                result.state.evaluations = state.evaluations := by
  intro ledger state
  have hbalanced : ledger.Balanced := Ledger.balanced_ofRun kernel inner operations
  have hstate : state = ledger.cache.unrecorded :=
    (Ledger.unrecorded_ofRun inner operations).symm
  have hevaluations : state.evaluations = ledger.answered.length := by
    rw [hstate]
    exact hbalanced.evaluations
  have hhits : state.hits + ledger.forwarded.length = ledger.answered.length := by
    rw [hstate]
    exact hbalanced.hits
  refine ⟨hstate, hevaluations, by omega, by omega, ?_, ?_⟩
  · rw [hstate]
    exact hbalanced.size_eq
  · intro positions values result
    have houtcome :
        result.outcome = (evaluate kernel.recorded positions values ledger.cache).outcome := by
      change (evaluate kernel positions values state).outcome = _
      rw [hstate, evaluate_unrecorded]
    refine ⟨houtcome, ?_, ?_⟩
    · intro hok
      rw [houtcome] at hok
      have hanswers := (evaluates kernel.recorded positions values ledger.cache).answers hok
      rw [batches, hanswers.handed, hbalanced.missing_eq]
      simp only [List.filter_eq_nil_iff, decide_not, Bool.not_eq_true', decide_eq_false_iff_not,
        not_not]
    · intro e herror
      exact (evaluates kernel positions values state).unchanged herror

/-- A run with a failure, a reset, a batch that has one position twice, a batch with a position
that is known, and another failure. -/
theorem statistics_of_ledger_unsteady :
    let odd : Point := ⟨0x7fc00000, 0x80000000⟩
    let zero : Point := ⟨0, 0⟩
    let one : Point := ⟨1, 1⟩
    let operations : List Operation := [.evaluate [one] [1, 1], .evaluate [one] [1, 1], .reset,
      .evaluate [odd] [1, 1], .evaluate [odd, zero, odd] [1, 1, 1, 1, 1, 1],
      .evaluate [odd, zero] [1, 1, 1, 1], .evaluate [one] [1, 1]]
    let ledger := Ledger.ofRun unsteady 0 operations
    let state := afterAll (wrap unsteady) 0 operations
    ledger.answered = [odd, zero, odd, odd, zero] ∧ ledger.forwarded = [odd, zero, odd] ∧
      state.evaluations = 5 ∧ state.hits = 2 ∧ state.known.size = 2 ∧
      batches unsteady [zero, one] [1, 1, 1, 1] ledger.cache = [[one]] ∧
      ((wrap unsteady).evaluate [zero] [1] state).state.store = state.store := by
  intro odd zero one operations ledger state
  have hledger : ledger.answered = [odd, zero, odd, odd, zero] ∧
      ledger.forwarded = [odd, zero, odd] := by
    simp [ledger, operations, Ledger.ofRun, Ledger.after, Ledger.opened, batches, evaluate,
      State.initial, State.reset, checkRoom, Kernel.recorded, machineInt, unsteady, lookUp, fillIn,
      Filling.add, odd, zero, one]
  have hmixed : ((wrap unsteady).evaluate [zero, one] [1, 1, 1, 1] state).outcome = .ok () := by
    simp [state, operations, afterAll, after, wrap, evaluate, State.initial, State.reset, checkRoom,
      machineInt, unsteady, lookUp, fillIn, Filling.add, odd, zero, one]
  obtain ⟨-, hevaluations, hforwarded, hhits, hsize, hnext⟩ :=
    statistics_of_ledger unsteady 0 operations
  have hstate : afterAll (wrap unsteady) 0 operations = state := rfl
  rw [hstate] at hevaluations hforwarded hhits hsize
  simp only [hstate] at hnext
  rw [hledger.1] at hevaluations hsize hnext
  rw [hledger.2] at hforwarded
  clear_value state
  have hrefused : ((wrap unsteady).evaluate [zero] [1] state).outcome =
      .error (.lengthMismatch 1 2 1) := by
    simp [wrap, evaluate, checkRoom, machineInt, unsteady]
  refine ⟨hledger.1, hledger.2, hevaluations, ?_, hsize.trans (by decide), ?_, ?_⟩
  · rw [hevaluations] at hhits hforwarded
    simp only [List.length_cons, List.length_nil] at hhits hforwarded
    omega
  · exact ((hnext [zero, one] [1, 1, 1, 1]).2.1 hmixed).trans (by decide)
  · exact ((hnext [zero] [1]).2.2 _ hrefused).2.1

end Cached

end NoiseShader
