import NoiseShader.Kernel.Cached
import NoiseShader.Kernel.Pointwise
import Mathlib.Tactic

/-!
# A cache does not change values

The kernel behind a cache fails when it likes; otherwise it stores the values of a
function of the words of a position.  Then the offset that a cache has for a
position is where the values of that function begin in its store, and this is kept
by every evaluation, successful or not, and by every reset.

Both passes of an evaluation write the values of a position to its place in the
buffer and leave the other places alone, so a successful evaluation through the
cache stores what the kernel itself would have stored.
-/

namespace NoiseShader

variable {σ τ : Type}

/-! ## Room for a batch -/

section Room

variable {positions : List Point} {values : List Float32} {components : ℤ}

theorem checkRoom_eq_ok (hpos : 0 ≤ components)
    (hcount : positions.length * components < 2 ^ 63) :
    checkRoom positions values components = .ok () ↔
      positions ≠ [] ∧ (values.length : ℤ) = positions.length * components := by
  unfold checkRoom
  rw [machineInt_eq (mul_nonneg (Int.natCast_nonneg _) hpos) (by omega)]
  split_ifs with hempty hlength
  · simp [hempty]
  · simp [hlength]
  · simpa [hempty] using hlength

theorem checkRoom_eq_error
    (hmisfit : positions = [] ∨
      (values.length : ℤ) ≠ machineInt (positions.length * components)) :
    ∃ e, checkRoom positions values components = .error e := by
  unfold checkRoom
  by_cases hempty : positions = []
  · exact ⟨_, if_pos hempty⟩
  · rw [if_neg hempty, if_pos (hmisfit.resolve_left hempty)]
    exact ⟨_, rfl⟩

end Room

/-- A kernel that fails or stores the values of a function, whenever it is given a batch and
room for its values. -/
structure Kernel.Stores (kernel : Kernel σ) (f : Point → List Float32) : Prop where
  components_pos : 1 ≤ kernel.components
  length_eq : ∀ position, ((f position).length : ℤ) = kernel.components
  stored : ∀ {positions values state}, positions ≠ [] →
    (values.length : ℤ) = positions.length * kernel.components →
    (kernel.evaluate positions values state).outcome = .ok () →
    (kernel.evaluate positions values state).values = positions.flatMap f

/-- A kernel that succeeds whenever it is given a batch and room for its values, and the number of
these is a machine word. -/
def Kernel.NeverFails (kernel : Kernel σ) : Prop :=
  ∀ ⦃positions values state⦄, positions ≠ [] →
    (values.length : ℤ) = positions.length * kernel.components →
    positions.length * kernel.components < 2 ^ 63 →
    (kernel.evaluate positions values state).outcome = .ok ()

theorem Kernel.Stores.toNat_length {kernel : Kernel σ} {f : Point → List Float32}
    (hstores : kernel.Stores f) (position : Point) :
    (f position).length = kernel.components.toNat := by
  have hlength := hstores.length_eq position
  omega

namespace Cached

/-! ## Slices and copies -/

section Copies

variable {values : Array Float32} {block : List Float32} {offset other count : ℕ}

theorem slice_eq (values : Array Float32) (offset count : ℕ) :
    slice values offset count = (values.toList.drop offset).take count := by
  rw [slice, Array.toList_extract, List.extract_eq_take_drop, Nat.add_sub_cancel_left]

theorem slice_append (hroom : offset + count ≤ values.size) :
    slice (values ++ block) offset count = slice values offset count := by
  rw [slice_eq, slice_eq, Array.toList_appendList, List.drop_append_of_le_length,
    List.take_append_of_le_length]
  · rw [List.length_drop, Array.length_toList]
    omega
  · rw [Array.length_toList]
    omega

theorem slice_append_size (hlength : block.length = count) :
    slice (values ++ block) values.size count = block := by
  rw [slice_eq, Array.toList_appendList, List.drop_left' Array.length_toList, ← hlength,
    List.take_length]

theorem toList_copyAt (hroom : offset + block.length ≤ values.size) :
    (copyAt values offset block).toList =
      values.toList.take offset ++ block ++ values.toList.drop (offset + block.length) := by
  induction block generalizing values offset with
  | nil => simp [copyAt]
  | cons value rest ih =>
      rw [List.length_cons] at hroom
      have hlt : offset < values.toList.length := by
        rw [Array.length_toList]
        omega
      rw [copyAt, ih (by rw [Array.size_setIfInBounds]; omega), Array.toList_setIfInBounds,
        List.take_succ_eq_append_getElem (by rwa [List.length_set]), List.take_set_of_le le_rfl,
        List.drop_set_of_lt (by omega), List.getElem_set_self, List.length_cons]
      simp only [List.append_assoc, List.cons_append, List.nil_append, Nat.add_assoc,
        Nat.add_comm 1]

theorem size_copyAt (hroom : offset + block.length ≤ values.size) :
    (copyAt values offset block).size = values.size := by
  rw [← Array.length_toList, toList_copyAt hroom]
  simp only [List.length_append, List.length_take, List.length_drop, Array.length_toList]
  omega

theorem slice_copyAt_self (hroom : offset + block.length ≤ values.size) :
    slice (copyAt values offset block) offset block.length = block := by
  have hfront : (values.toList.take offset).length = offset := by
    rw [List.length_take, Array.length_toList]
    omega
  rw [slice_eq, toList_copyAt hroom, List.append_assoc, List.drop_left' hfront,
    List.take_left' rfl]

theorem getElem?_copyAt_of_apart {i : ℕ} (hapart : i < offset ∨ offset + block.length ≤ i) :
    (copyAt values offset block).toList[i]? = values.toList[i]? := by
  induction block generalizing values offset with
  | nil => rfl
  | cons value rest ih =>
      rw [List.length_cons] at hapart
      rw [copyAt, ih (by omega), Array.toList_setIfInBounds, List.getElem?_set_ne (by omega)]

theorem slice_copyAt_of_apart
    (hapart : other + count ≤ offset ∨ offset + block.length ≤ other) :
    slice (copyAt values offset block) other count = slice values other count := by
  apply List.ext_getElem?
  intro i
  rw [slice_eq, slice_eq, List.getElem?_take, List.getElem?_take]
  split_ifs with hi
  · rw [List.getElem?_drop, List.getElem?_drop, getElem?_copyAt_of_apart (by omega)]
  · rfl

end Copies

/-! ## Values at their places -/

variable {f : Point → List Float32} {components : ℕ} {positions : List Point}

/-- The place of a batch holds the values of its position. -/
def Holds (f : Point → List Float32) (components : ℕ) (positions : List Point)
    (values : Array Float32) (place : ℕ) : Prop :=
  ∀ position, positions[place]? = some position →
    slice values (place * components) components = f position

theorem apart_of_ne {place other : ℕ} (hne : other ≠ place) (components : ℕ) :
    other * components + components ≤ place * components ∨
      place * components + components ≤ other * components := by
  rw [← Nat.succ_mul, ← Nat.succ_mul]
  exact (lt_or_gt_of_ne hne).imp (Nat.mul_le_mul_right _) (Nat.mul_le_mul_right _)

theorem place_room {values : Array Float32} (hroom : values.size = positions.length * components)
    {place : ℕ} (hplace : place < positions.length) :
    place * components + components ≤ values.size := by
  rw [hroom, ← Nat.succ_mul]
  exact Nat.mul_le_mul_right _ hplace

/-- Values that are copied to the place of their position are right there and spoil no other
place. -/
theorem Holds.copyAt {values : Array Float32}
    (hlength : ∀ position, (f position).length = components)
    (hroom : values.size = positions.length * components) {place : ℕ} {position : Point}
    (hplace : positions[place]? = some position) {other : ℕ}
    (hholds : other ≠ place → Holds f components positions values other) :
    Holds f components positions
      (Cached.copyAt values (place * components) (f position)) other := by
  intro found hfound
  by_cases hsame : other = place
  · subst hsame
    rw [hplace] at hfound
    cases hfound
    have hlt := (List.getElem?_eq_some_iff.mp hplace).1
    have hself := @slice_copyAt_self values (f position) (other * components) (by
      rw [hlength]
      exact place_room hroom hlt)
    rwa [hlength] at hself
  · rw [slice_copyAt_of_apart]
    · exact hholds hsame found hfound
    · rw [hlength]
      exact apart_of_ne hsame components

theorem eq_flatMap_of_blocks {values : List Float32}
    (hroom : values.length = positions.length * components)
    (hblocks : ∀ place position, positions[place]? = some position →
      (values.drop (place * components)).take components = f position) :
    values = positions.flatMap f := by
  induction positions generalizing values with
  | nil => simpa using hroom
  | cons position rest ih =>
      have hfirst : values.take components = f position := by
        simpa using hblocks 0 position rfl
      have hrest : values.drop components = rest.flatMap f := by
        apply ih
        · rw [List.length_drop, hroom, List.length_cons, Nat.succ_mul, Nat.add_sub_cancel]
        · intro place found hfound
          rw [List.drop_drop, Nat.add_comm components, ← Nat.succ_mul]
          exact hblocks (place + 1) found hfound
      rw [List.flatMap_cons, ← hfirst, ← hrest, List.take_append_drop]

/-- A buffer that holds the right values at every place holds nothing else. -/
theorem toList_eq_flatMap {values : Array Float32}
    (hroom : values.size = positions.length * components)
    (hholds : ∀ place, Holds f components positions values place) :
    values.toList = positions.flatMap f := by
  apply eq_flatMap_of_blocks (by rw [Array.length_toList, hroom])
  intro place position hposition
  rw [← slice_eq]
  exact hholds place position hposition

theorem slice_flatMap (hlength : ∀ position, (f position).length = components) {place : ℕ}
    {position : Point} (hposition : positions[place]? = some position) :
    slice (positions.flatMap f).toArray (place * components) components = f position := by
  rw [slice_eq]
  change ((positions.flatMap f).drop (place * components)).take components = f position
  induction positions generalizing place with
  | nil => cases hposition
  | cons head rest ih =>
      cases place with
      | zero =>
          cases hposition
          rw [Nat.zero_mul, List.drop_zero, List.flatMap_cons, List.take_left' (hlength _)]
      | succ place =>
          rw [Nat.succ_mul, Nat.add_comm, ← List.drop_drop, List.flatMap_cons,
            List.drop_left' (hlength head)]
          exact ih hposition

/-! ## What is known -/

section Known

variable {known : Std.HashMap Point ℕ} {store : Array Float32}

/-- The offset of a known position is where its values begin in the store. -/
def Locates (known : Std.HashMap Point ℕ) (store : Array Float32) (f : Point → List Float32)
    (components : ℕ) : Prop :=
  ∀ ⦃position offset⦄, known[position]? = some offset →
    offset + components ≤ store.size ∧ slice store offset components = f position

theorem Locates.empty : Locates ∅ store f components := by
  intro position offset h
  simp at h

theorem Locates.insert (hlocates : Locates known store f components)
    (hlength : ∀ position, (f position).length = components) (position : Point) :
    Locates (known.insert position store.size) (store ++ f position) f components := by
  have hsize : (store ++ f position).size = store.size + components := by
    rw [← Array.length_toList, Array.toList_appendList, List.length_append, Array.length_toList,
      hlength]
  intro other offset hoffset
  rw [Std.HashMap.getElem?_insert] at hoffset
  split at hoffset
  next hsame =>
    obtain rfl : position = other := by simpa using hsame
    cases hoffset
    exact ⟨hsize.ge, slice_append_size (hlength position)⟩
  next =>
    obtain ⟨hroom, hslice⟩ := hlocates hoffset
    exact ⟨by omega, by rw [slice_append hroom, hslice]⟩

end Known

/-! ## The two passes -/

variable {state : State σ}

/-- The positions of a batch that are forwarded. -/
def State.missing (state : State σ) (positions : List Point) : List Point :=
  positions.filter (!state.known.contains ·)

theorem positions_lookUp (state : State σ) (components : ℕ) (positions : List Point) (place : ℕ)
    (values : Array Float32) :
    (lookUp state components positions place values).2.map (·.position) =
      state.missing positions := by
  induction positions generalizing place values with
  | nil => rfl
  | cons position rest ih =>
      unfold lookUp State.missing
      rw [List.filter_cons, Std.HashMap.contains_eq_isSome_getElem?]
      cases state.known[position]? with
      | some offset => simpa [State.missing] using ih _ _
      | none => simpa [State.missing] using ih _ _

/-- What the first pass over a batch leaves when it begins at a place. -/
structure LooksUp (f : Point → List Float32) (components : ℕ) (positions : List Point) (place : ℕ)
    (values : Array Float32) (result : Array Float32 × List Miss) : Prop where
  size_eq : result.1.size = values.size
  kept : ∀ other, Holds f components positions values other →
    Holds f components positions result.1 other
  found : ∀ other, place ≤ other →
    Holds f components positions result.1 other ∨ ∃ miss ∈ result.2, miss.place = other
  missed : ∀ miss ∈ result.2, positions[miss.place]? = some miss.position

theorem looksUp (hlocates : Locates state.known state.store f components)
    (hlength : ∀ position, (f position).length = components) {rest : List Point} {place : ℕ}
    (hrest : positions.drop place = rest) {values : Array Float32}
    (hroom : values.size = positions.length * components) :
    LooksUp f components positions place values (lookUp state components rest place values) := by
  induction rest generalizing place values with
  | nil =>
      refine ⟨rfl, fun _ h => h, fun other hother => .inl ?_, by rintro miss ⟨⟩⟩
      intro position hposition
      have hlt := (List.getElem?_eq_some_iff.mp hposition).1
      have hend := List.drop_eq_nil_iff.mp hrest
      omega
  | cons position rest ih =>
      have hplace : positions[place]? = some position := by
        rw [← List.head?_drop, hrest, List.head?_cons]
      have hnext : positions.drop (place + 1) = rest := by
        rw [← List.drop_drop, hrest, List.drop_one, List.tail_cons]
      unfold lookUp
      cases hknown : state.known[position]? with
      | some offset =>
          simp only
          rw [(hlocates hknown).2]
          have hblock : place * components + (f position).length ≤ values.size := by
            rw [hlength]
            exact place_room hroom (List.getElem?_eq_some_iff.mp hplace).1
          have hsize := size_copyAt hblock
          have hbelow := ih hnext (hsize.trans hroom)
          have hcopied : ∀ other, (other ≠ place → Holds f components positions values other) →
              Holds f components positions _ other :=
            fun other hholds => Holds.copyAt hlength hroom hplace hholds
          refine ⟨hbelow.size_eq.trans hsize, fun other h => hbelow.kept _ (hcopied _ fun _ => h),
            fun other hother => ?_, hbelow.missed⟩
          by_cases hsame : other = place
          · exact .inl (hbelow.kept _ (hcopied _ fun hne => absurd hsame hne))
          · exact hbelow.found other (by omega)
      | none =>
          have hbelow := ih hnext hroom
          refine ⟨hbelow.size_eq, hbelow.kept, fun other hother => ?_,
            List.forall_mem_cons.mpr ⟨hplace, hbelow.missed⟩⟩
          by_cases hsame : other = place
          · exact .inr ⟨_, List.mem_cons_self, hsame.symm⟩
          · refine (hbelow.found other (by omega)).imp_right ?_
            rintro ⟨miss, hmiss, hat⟩
            exact ⟨miss, List.mem_cons_of_mem _ hmiss, hat⟩

section Filling

variable {filling : Filling}

theorem Filling.values_add (filling : Filling) (components : ℕ) (miss : Miss)
    (block : List Float32) :
    (filling.add components miss block).values =
      copyAt filling.values (miss.place * components) block := by
  unfold add
  split_ifs <;> rfl

variable (hlength : ∀ position, (f position).length = components) {missed : List Miss}
  {results : Array Float32} {index : ℕ}
  (hresults : ∀ step miss, missed[step]? = some miss →
    slice results ((index + step) * components) components = f miss.position)

include hlength

theorem Filling.locates_add (hlocates : Locates filling.known filling.store f components)
    (miss : Miss) :
    Locates (filling.add components miss (f miss.position)).known
      (filling.add components miss (f miss.position)).store f components := by
  unfold add
  split_ifs
  · exact hlocates
  · exact hlocates.insert hlength miss.position

include hresults

omit hlength in
theorem slice_results_cons {miss : Miss} {rest : List Miss} (hmissed : missed = miss :: rest) :
    slice results (index * components) components = f miss.position ∧
      ∀ step later, rest[step]? = some later →
        slice results ((index + 1 + step) * components) components = f later.position := by
  subst hmissed
  refine ⟨hresults 0 miss rfl, fun step later hlater => ?_⟩
  rw [Nat.add_right_comm]
  exact hresults (step + 1) later hlater

theorem locates_fillIn (hlocates : Locates filling.known filling.store f components) :
    Locates (fillIn components results missed index filling).known
      (fillIn components results missed index filling).store f components := by
  induction missed generalizing index filling with
  | nil => exact hlocates
  | cons miss rest ih =>
      obtain ⟨hfirst, hlater⟩ := slice_results_cons hresults rfl
      unfold fillIn
      rw [hfirst]
      exact ih hlater (Filling.locates_add hlength hlocates miss)

/-- What the second pass over forwarded positions does to the buffer. -/
structure Fills (f : Point → List Float32) (components : ℕ) (positions : List Point)
    (missed : List Miss) (before after : Array Float32) : Prop where
  size_eq : after.size = before.size
  kept : ∀ other, Holds f components positions before other →
    Holds f components positions after other
  filled : ∀ miss ∈ missed, Holds f components positions after miss.place

theorem fills (hroom : filling.values.size = positions.length * components)
    (hmissed : ∀ miss ∈ missed, positions[miss.place]? = some miss.position) :
    Fills f components positions missed filling.values
      (fillIn components results missed index filling).values := by
  induction missed generalizing index filling with
  | nil => exact ⟨rfl, fun _ h => h, by rintro miss ⟨⟩⟩
  | cons miss rest ih =>
      obtain ⟨hmiss, hothers⟩ := List.forall_mem_cons.mp hmissed
      obtain ⟨hfirst, hlater⟩ := slice_results_cons hresults rfl
      have hblock : miss.place * components + (f miss.position).length ≤ filling.values.size := by
        rw [hlength]
        exact place_room hroom (List.getElem?_eq_some_iff.mp hmiss).1
      have hsize : (filling.add components miss (f miss.position)).values.size =
          filling.values.size := by
        rw [Filling.values_add, size_copyAt hblock]
      have hcopied : ∀ other,
          (other ≠ miss.place → Holds f components positions filling.values other) →
            Holds f components positions
              (filling.add components miss (f miss.position)).values other := by
        intro other hholds
        rw [Filling.values_add]
        exact Holds.copyAt hlength hroom hmiss hholds
      have hbelow := ih hlater (hsize.trans hroom) hothers
      unfold fillIn
      rw [hfirst]
      refine ⟨hbelow.size_eq.trans hsize, fun other h => hbelow.kept _ (hcopied _ fun _ => h),
        List.forall_mem_cons.mpr ⟨?_, hbelow.filled⟩⟩
      exact hbelow.kept _ (hcopied _ fun hne => absurd rfl hne)

end Filling

/-! ## One evaluation -/

variable {kernel : Kernel σ} {values : List Float32}

/-- What the first pass of an evaluation finds. -/
def State.found (state : State σ) (kernel : Kernel σ) (positions : List Point)
    (values : List Float32) : Array Float32 × List Miss :=
  lookUp state kernel.components.toNat positions 0 values.toArray

def State.forwarded (state : State σ) (kernel : Kernel σ) (positions : List Point) :
    Evaluation σ :=
  kernel.evaluate (state.missing positions)
    (workspace state.work ((state.missing positions).length * kernel.components.toNat)) state.inner

/-- What the second pass of an evaluation leaves. -/
def State.filled (state : State σ) (kernel : Kernel σ) (positions : List Point)
    (values : List Float32) : Filling :=
  fillIn kernel.components.toNat (state.forwarded kernel positions).values.toArray
    (state.found kernel positions values).2 0
    ⟨state.known, state.store, (state.found kernel positions values).1⟩

/-- What an evaluation can do: refuse the buffers, answer from what is known, pass on a failure of
the kernel, or store what the kernel stored. -/
inductive Evaluates (kernel : Kernel σ) (positions : List Point) (values : List Float32)
    (state : State σ) : Evaluation (State σ) → Prop
  | refused {e : EvaluationError}
      (hroom : checkRoom positions values kernel.components = .error e) :
      Evaluates kernel positions values state ⟨.error e, values, state⟩
  | answered (hroom : checkRoom positions values kernel.components = .ok ())
      (hmissing : state.missing positions = []) :
      Evaluates kernel positions values state
        ⟨.ok (), (state.found kernel positions values).1.toList,
          { state with
            hits := state.hits + positions.length
            evaluations := state.evaluations + positions.length }⟩
  | failed {e : EvaluationError} (work : List Float32)
      (hroom : checkRoom positions values kernel.components = .ok ())
      (hmissing : state.missing positions ≠ [])
      (houtcome : (state.forwarded kernel positions).outcome = .error e) :
      Evaluates kernel positions values state
        ⟨.error e, (state.found kernel positions values).1.toList,
          { state with
            work := work
            inner := (state.forwarded kernel positions).state }⟩
  | stored (work : List Float32) (hroom : checkRoom positions values kernel.components = .ok ())
      (hmissing : state.missing positions ≠ [])
      (houtcome : (state.forwarded kernel positions).outcome = .ok ()) :
      Evaluates kernel positions values state
        ⟨.ok (), (state.filled kernel positions values).values.toList,
          { known := (state.filled kernel positions values).known
            store := (state.filled kernel positions values).store
            work := work
            hits := state.hits + (positions.length - (state.missing positions).length)
            evaluations := state.evaluations + positions.length
            inner := (state.forwarded kernel positions).state }⟩

theorem evaluates (kernel : Kernel σ) (positions : List Point) (values : List Float32)
    (state : State σ) :
    Evaluates kernel positions values state (evaluate kernel positions values state) := by
  have hmissing : (state.found kernel positions values).2.map (·.position) =
      state.missing positions := positions_lookUp ..
  have hcount : (state.found kernel positions values).2.length =
      (state.missing positions).length := by
    rw [← hmissing, List.length_map]
  have hnone : (state.found kernel positions values).2 = [] ↔ state.missing positions = [] := by
    rw [← hmissing, List.map_eq_nil_iff]
  unfold evaluate
  split
  next e hroom => exact .refused hroom
  next hroom =>
    have hfound : lookUp state kernel.components.toNat positions 0 values.toArray =
        ((state.found kernel positions values).1, (state.found kernel positions values).2) := rfl
    dsimp only
    rw [hfound]
    dsimp only
    rw [hmissing, hcount]
    split_ifs with hempty
    · exact .answered hroom (hnone.mp hempty)
    · split
      next e houtcome => exact .failed _ hroom (mt hnone.mpr hempty) houtcome
      next houtcome => exact .stored _ hroom (mt hnone.mpr hempty) houtcome

theorem length_workspace (work : List Float32) (length : ℕ) :
    (workspace work length).length = length := by
  rw [workspace, List.length_append, List.length_take, List.length_replicate]
  omega

theorem length_missing_le (state : State σ) (positions : List Point) :
    (state.missing positions).length ≤ positions.length := List.length_filter_le ..

section Stores

variable (hstores : kernel.Stores f)

include hstores

theorem room_forwarded :
    ((workspace state.work ((state.missing positions).length * kernel.components.toNat)).length :
      ℤ) = (state.missing positions).length * kernel.components := by
  have hpos := hstores.components_pos
  rw [length_workspace, Nat.cast_mul, Int.toNat_of_nonneg (by omega)]

/-- The results of a forwarded batch, place by place. -/
theorem slice_forwarded (hmissing : state.missing positions ≠ [])
    (houtcome : (state.forwarded kernel positions).outcome = .ok ()) (step : ℕ) (miss : Miss)
    (hmiss : (state.found kernel positions values).2[step]? = some miss) :
    slice (state.forwarded kernel positions).values.toArray
      ((0 + step) * kernel.components.toNat) kernel.components.toNat = f miss.position := by
  have hvalues : (state.forwarded kernel positions).values =
      (state.missing positions).flatMap f :=
    hstores.stored hmissing (room_forwarded hstores) houtcome
  rw [hvalues, Nat.zero_add]
  apply slice_flatMap hstores.toNat_length
  rw [← positions_lookUp state kernel.components.toNat positions 0 values.toArray,
    List.getElem?_map]
  exact congrArg (Option.map Miss.position) hmiss

theorem Evaluates.locates {result : Evaluation (State σ)}
    (hresult : Evaluates kernel positions values state result)
    (hlocates : Locates state.known state.store f kernel.components.toNat) :
    Locates result.state.known result.state.store f kernel.components.toNat := by
  cases hresult with
  | refused | answered | failed => exact hlocates
  | stored work hroom hmissing houtcome =>
      exact locates_fillIn hstores.toNat_length (slice_forwarded hstores hmissing houtcome) hlocates

theorem Evaluates.values_eq {result : Evaluation (State σ)}
    (hresult : Evaluates kernel positions values state result)
    (hlocates : Locates state.known state.store f kernel.components.toNat)
    (hcount : positions.length * kernel.components < 2 ^ 63) (hok : result.outcome = .ok ()) :
    result.values = positions.flatMap f := by
  have hpos := hstores.components_pos
  have hsized : checkRoom positions values kernel.components = .ok () →
      values.toArray.size = positions.length * kernel.components.toNat := by
    intro hroom
    have hlength := ((checkRoom_eq_ok (by omega) hcount).mp hroom).2
    rw [List.size_toArray]
    zify
    rw [hlength, Int.toNat_of_nonneg (by omega)]
  have hlookedUp (hroom : checkRoom positions values kernel.components = .ok ()) :
      LooksUp f kernel.components.toNat positions 0 values.toArray
        (state.found kernel positions values) :=
    looksUp hlocates hstores.toNat_length List.drop_zero (hsized hroom)
  cases hresult with
  | refused | failed => cases hok
  | answered hroom hmissing =>
      have hfound := hlookedUp hroom
      have hnone : (state.found kernel positions values).2 = [] := by
        rw [← List.map_eq_nil_iff, State.found, positions_lookUp, hmissing]
      apply toList_eq_flatMap (hfound.size_eq.trans (hsized hroom))
      intro place
      refine (hfound.found place (Nat.zero_le place)).resolve_right ?_
      rintro ⟨miss, hmiss, -⟩
      rw [hnone] at hmiss
      cases hmiss
  | stored work hroom hmissing houtcome =>
      have hfound := hlookedUp hroom
      have hsize := hfound.size_eq.trans (hsized hroom)
      have hbuffer : (Filling.mk state.known state.store
          (state.found kernel positions values).1).values.size =
            positions.length * kernel.components.toNat := hsize
      have hfills := fills hstores.toNat_length (slice_forwarded hstores hmissing houtcome) hbuffer
        hfound.missed
      apply toList_eq_flatMap (hfills.size_eq.trans hsize)
      intro place
      rcases hfound.found place (Nat.zero_le place) with hholds | ⟨miss, hmiss, rfl⟩
      · exact hfills.kept place hholds
      · exact hfills.filled miss hmiss

/-- A cache in front of a kernel that never fails only refuses buffers. -/
theorem Evaluates.outcome_eq {result : Evaluation (State σ)}
    (hresult : Evaluates kernel positions values state result) (hnever : kernel.NeverFails)
    (hcount : positions.length * kernel.components < 2 ^ 63)
    (hroom : checkRoom positions values kernel.components = .ok ()) :
    result.outcome = .ok () := by
  cases hresult with
  | refused hrefused =>
      rw [hrefused] at hroom
      cases hroom
  | answered => rfl
  | failed work _ hmissing houtcome =>
      have hpos := hstores.components_pos
      have hfewer : ((state.missing positions).length : ℤ) * kernel.components < 2 ^ 63 := by
        refine lt_of_le_of_lt (mul_le_mul_of_nonneg_right ?_ (by omega)) hcount
        exact_mod_cast length_missing_le state positions
      rw [State.forwarded, hnever hmissing (room_forwarded hstores) hfewer] at houtcome
      cases houtcome
  | stored => rfl

end Stores

theorem Evaluates.outcome_of_refused {result : Evaluation (State σ)}
    (hresult : Evaluates kernel positions values state result) {e : EvaluationError}
    (hroom : checkRoom positions values kernel.components = .error e) :
    result.outcome = .error e := by
  cases hresult with
  | refused hrefused =>
      rw [hroom] at hrefused
      cases hrefused
      rfl
  | answered hok | failed _ hok | stored _ hok =>
      rw [hroom] at hok
      cases hok

/-! ## Sequences of operations -/

inductive Operation where
  | evaluate (positions : List Point) (values : List Float32)
  | reset

def after (cache : Kernel (State σ)) (state : State σ) : Operation → State σ
  | .evaluate positions values => (cache.evaluate positions values state).state
  | .reset => state.reset

/-- The state of a new cache after operations. -/
def afterAll (cache : Kernel (State σ)) (inner : σ) (operations : List Operation) : State σ :=
  operations.foldl (after cache) (State.initial inner)

theorem Locates.after (hstores : kernel.Stores f)
    (hlocates : Locates state.known state.store f kernel.components.toNat)
    (operation : Operation) :
    Locates (after (wrap kernel) state operation).known (after (wrap kernel) state operation).store
      f kernel.components.toNat := by
  cases operation with
  | evaluate positions values =>
      exact (evaluates kernel positions values state).locates hstores hlocates
  | reset => exact Locates.empty

theorem locates_afterAll (hstores : kernel.Stores f) (inner : σ) (operations : List Operation) :
    Locates (afterAll (wrap kernel) inner operations).known
      (afterAll (wrap kernel) inner operations).store f kernel.components.toNat := by
  have hrun : ∀ state : State σ, Locates state.known state.store f kernel.components.toNat →
      Locates (operations.foldl (Cached.after (wrap kernel)) state).known
        (operations.foldl (Cached.after (wrap kernel)) state).store f
        kernel.components.toNat := by
    induction operations with
    | nil =>
        intro state hlocates
        exact hlocates
    | cons operation rest ih =>
        intro state hlocates
        exact ih _ (hlocates.after hstores operation)
  exact hrun _ Locates.empty

/-- Through a cache, after any evaluations and resets, a successful evaluation stores the values
of the function that the kernel behind the cache stores; buffers that do not fit are refused as a
kernel without a cache refuses them; and nothing else fails unless the kernel fails.  The number of
values that fit is a machine word, and a batch is stored if its number of values is one. -/
theorem create_transparent (hstores : kernel.Stores f) {cache : Kernel (State σ)}
    (hcache : create (some kernel) = .ok cache) (inner : σ) (operations : List Operation)
    (positions : List Point) (values : List Float32) :
    let state := afterAll cache inner operations
    let result := cache.evaluate positions values state
    let count := positions.length * kernel.components
    (∀ position offset, state.known[position]? = some offset →
      slice state.store offset kernel.components.toNat = f position) ∧
    (count < 2 ^ 63 → result.outcome = .ok () → result.values = positions.flatMap f) ∧
      (positions = [] ∨ (values.length : ℤ) ≠ machineInt count →
        ∃ e, result.outcome = .error e ∧
          ∀ (direct : Pointwise τ) (directState : Pointwise.State τ),
            (direct.components : ℤ) = kernel.components →
              (direct.toKernel.evaluate positions values directState).outcome = .error e) ∧
      (count < 2 ^ 63 → kernel.NeverFails → positions ≠ [] → (values.length : ℤ) = count →
        result.outcome = .ok ()) := by
  cases hcache
  have hpos := hstores.components_pos
  have hlocates := locates_afterAll hstores inner operations
  have hresult := evaluates kernel positions values (afterAll (wrap kernel) inner operations)
  refine ⟨fun position offset hoffset => (hlocates hoffset).2,
    hresult.values_eq hstores hlocates, ?_, ?_⟩
  · intro hmisfit
    obtain ⟨e, hroom⟩ := checkRoom_eq_error hmisfit
    refine ⟨e, hresult.outcome_of_refused hroom, ?_⟩
    intro direct directState hcomponents
    change (direct.evaluate positions values directState).outcome = .error e
    rw [Pointwise.evaluate, hcomponents, hroom]
  · intro hcount hnever hpositions hlength
    exact hresult.outcome_eq hstores hnever hcount
      ((checkRoom_eq_ok (by omega) hcount).mpr ⟨hpositions, hlength⟩)

/-- A kernel that stores the coordinates of positions and fails at every other call. -/
def unsteady : Kernel ℕ where
  components := 2
  evaluate positions values calls :=
    if calls % 2 = 0 then ⟨.error (.reported "busy"), values, calls + 1⟩
    else ⟨.ok (), positions.flatMap fun p => [p.toVec.x, p.toVec.y], calls + 1⟩

theorem unsteady_stores : unsteady.Stores fun p => [p.toVec.x, p.toVec.y] where
  components_pos := by decide
  length_eq _ := rfl
  stored _ _ houtcome := by
    unfold unsteady at houtcome ⊢
    simp only at houtcome ⊢
    split_ifs at houtcome ⊢ with hcalls
    rfl

/-- The batch has a position that is known between two that are not. -/
theorem create_transparent_unsteady :
    let odd : Point := ⟨0x7fc00000, 0x80000000⟩
    let zero : Point := ⟨0, 0⟩
    let state := afterAll (wrap unsteady) 0 [.evaluate [odd] [1, 1], .reset, .evaluate [] [],
      .evaluate [zero] [1, 1], .evaluate [odd] [1, 1]]
    let result := (wrap unsteady).evaluate [odd, zero, odd] [2, 2, 2, 2, 2, 2] state
    state.known[zero]? = some 0 ∧ state.known[odd]? = none ∧ result.outcome = .ok () ∧
      result.values = [odd, zero, odd].flatMap fun p => [p.toVec.x, p.toVec.y] := by
  intro odd zero state result
  have hrun : state.known[zero]? = some 0 ∧ state.known[odd]? = none ∧
      result.outcome = .ok () := by
    simp [state, result, afterAll, after, wrap, evaluate, State.initial, State.reset, checkRoom,
      machineInt, unsteady, lookUp, fillIn, Filling.add, odd, zero]
  refine ⟨hrun.1, hrun.2.1, hrun.2.2, ?_⟩
  exact (create_transparent (τ := Unit) unsteady_stores rfl 0 _ [odd, zero, odd]
    [2, 2, 2, 2, 2, 2]).2.1 (by decide) hrun.2.2

end Cached

end NoiseShader
