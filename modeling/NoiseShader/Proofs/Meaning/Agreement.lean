import NoiseShader.Proofs.Meaning.Evaluation
import Mathlib.Tactic

/-!
# Calls that give more results

What a definition computes depends on the functions it calls only through their
results.  Calls that agree with other calls wherever those succeed can take their
place: whatever was computed with the old ones is computed with the new ones.

A library of definitions is therefore understood one definition at a time.  Each
one is given a meaning, which is a partial function of the values of its
arguments, and it is enough that a definition computes its meaning when the calls
it makes have theirs.  If a definition calls only definitions in front of it, then
calls nested as deeply as there are definitions compute all the meanings.
-/

namespace NoiseShader.Meaning

/-- Wherever the first calls succeed, the second ones give the same result. -/
def Agrees (calls others : Calls) : Prop :=
  ∀ ⦃function values value⦄, calls function values = .ok value → others function values = .ok value

namespace Agrees

variable {calls others : Calls} {fill : Float32}

mutual

theorem evaluate (hagrees : Agrees calls others) (scope : Scope) :
    ∀ {node value}, Meaning.evaluate calls scope node = .ok value →
      Meaning.evaluate others scope node = .ok value
  | .literal value, _, h => by
      cases value <;> exact h
  | .identifier _, _, h => h
  | .call name arguments, _, h => by
      obtain ⟨values, hvalues, h⟩ := bind_eq_ok.mp h
      refine bind_eq_ok.mpr ⟨values, evaluateAll hagrees scope hvalues, ?_⟩
      split at h
      next builtin hbuiltin => exact h
      next => exact hagrees h
  | .binary operator left right, _, h => by
      obtain ⟨leftValue, hleft, h⟩ := bind_eq_ok.mp h
      obtain ⟨rightValue, hright, h⟩ := bind_eq_ok.mp h
      exact bind_eq_ok.mpr ⟨leftValue, evaluate hagrees scope hleft,
        bind_eq_ok.mpr ⟨rightValue, evaluate hagrees scope hright, h⟩⟩
  | .conditional condition whenTrue whenFalse, _, h => by
      obtain ⟨value, hcondition, h⟩ := bind_eq_ok.mp h
      refine bind_eq_ok.mpr ⟨value, evaluate hagrees scope hcondition, ?_⟩
      split at h
      next b =>
        cases b with
        | true => exact evaluate hagrees scope h
        | false => exact evaluate hagrees scope h
      next => cases h
  | .swizzle operand selection, _, h => by
      obtain ⟨value, hvalue, h⟩ := bind_eq_ok.mp h
      exact bind_eq_ok.mpr ⟨value, evaluate hagrees scope hvalue, h⟩
  | .absent, _, h | .unary .., _, h | .member .., _, h | .index .., _, h | .assignment .., _, h
  | .declaration .., _, h | .result _, _, h | .function .., _, h | .block .., _, h
  | .reference _, _, h => by
      cases h

theorem evaluateAll (hagrees : Agrees calls others) (scope : Scope) :
    ∀ {nodes values}, Meaning.evaluateAll calls scope nodes = .ok values →
      Meaning.evaluateAll others scope nodes = .ok values
  | [], _, h => h
  | node :: rest, _, h => by
      obtain ⟨value, hvalue, h⟩ := bind_eq_ok.mp h
      obtain ⟨values, hvalues, h⟩ := bind_eq_ok.mp h
      exact bind_eq_ok.mpr ⟨value, evaluate hagrees scope hvalue,
        bind_eq_ok.mpr ⟨values, evaluateAll hagrees scope hvalues, h⟩⟩

end

theorem startValue (hagrees : Agrees calls others) {scope : Scope} {type : String} {node : Node}
    {value : Value} (h : Meaning.startValue calls fill scope type node = .ok value) :
    Meaning.startValue others fill scope type node = .ok value := by
  unfold Meaning.startValue at h ⊢
  by_cases habsent : node.isAbsent = true
  · rw [if_pos habsent] at h ⊢
    exact h
  · rw [if_neg habsent] at h ⊢
    exact hagrees.evaluate scope h

theorem update (hagrees : Agrees calls others) {scope next : Scope} {statement : Node}
    (h : Meaning.update calls fill scope statement = .ok next) :
    Meaning.update others fill scope statement = .ok next := by
  unfold Meaning.update at h ⊢
  split at h
  next type name node =>
    obtain ⟨value, hvalue, h⟩ := bind_eq_ok.mp h
    exact bind_eq_ok.mpr ⟨value, hagrees.startValue hvalue, h⟩
  next name node =>
    obtain ⟨value, hvalue, h⟩ := bind_eq_ok.mp h
    exact bind_eq_ok.mpr ⟨value, hagrees.evaluate scope hvalue, h⟩
  next name selection node =>
    obtain ⟨part, hpart, h⟩ := bind_eq_ok.mp h
    exact bind_eq_ok.mpr ⟨part, hagrees.evaluate scope hpart, h⟩
  next => cases h

theorem execute (hagrees : Agrees calls others) {statements : List Node} {scope : Scope}
    {value : Value} (h : Meaning.execute calls fill scope statements = .ok value) :
    Meaning.execute others fill scope statements = .ok value := by
  fun_induction Meaning.execute calls fill scope statements with
  | case1 => cases h
  | case2 scope node rest => exact hagrees.evaluate scope h
  | case3 scope statement rest hstatement ih =>
      obtain ⟨next, hnext, h⟩ := bind_eq_ok.mp h
      rw [Meaning.execute]
      · exact bind_eq_ok.mpr ⟨next, hagrees.update hnext, ih next h⟩
      · exact hstatement

theorem applyDefinition (hagrees : Agrees calls others) {definition : Definition}
    {arguments : List Value} {value : Value}
    (h : Meaning.applyDefinition calls fill definition arguments = .ok value) :
    Meaning.applyDefinition others fill definition arguments = .ok value := by
  obtain ⟨scope, hscope, h⟩ := bind_eq_ok.mp h
  obtain ⟨result, hresult, h⟩ := bind_eq_ok.mp h
  exact bind_eq_ok.mpr ⟨scope, hscope, bind_eq_ok.mpr ⟨result, hagrees.execute hresult, h⟩⟩

end Agrees

/-! ## Libraries of definitions with a meaning -/

/-- A definition with the function it stands for. -/
structure Entry where
  definition : Definition
  meaning : List Value → Option Value

/-- Calls that give every definition its meaning. -/
def meaningOf (entries : List Entry) : Calls := fun function values =>
  match entries.find? (·.definition.name == function) with
  | none => .error (.missingFunction function)
  | some entry => orFail (.wrongArguments function) (entry.meaning values)

/-- The definition of an entry computes its meaning with the given calls. -/
def Entry.Computes (entry : Entry) (calls : Calls) (fill : Float32) : Prop :=
  ∀ ⦃values value⦄, entry.meaning values = some value →
    applyDefinition calls fill entry.definition values = .ok value

/-- Every definition computes its meaning from the meanings of those that follow it. -/
def Sound (fill : Float32) : List Entry → Prop
  | [] => True
  | entry :: rest => entry.Computes (meaningOf rest) fill ∧ Sound fill rest

theorem meaningOf_cons_self {entry : Entry} {rest : List Entry} {values : List Value} :
    meaningOf (entry :: rest) entry.definition.name values =
      orFail (.wrongArguments entry.definition.name) (entry.meaning values) := by
  simp [meaningOf]

theorem meaningOf_cons_of_ne {entry : Entry} {rest : List Entry} {function : String}
    (hname : entry.definition.name ≠ function) {values : List Value} :
    meaningOf (entry :: rest) function values = meaningOf rest function values := by
  simp [meaningOf, hname]

theorem Sound.agrees {fill : Float32} {definitions : List Definition} {entries : List Entry}
    (hsound : Sound fill entries)
    (hfind : ∀ entry ∈ entries,
      definitions.find? (·.name == entry.definition.name) = some entry.definition)
    {depth : ℕ} (hdepth : entries.length ≤ depth) :
    Agrees (meaningOf entries) (invoke definitions fill depth) := by
  -- The calls that an entry makes are one level less deep, which is enough for those behind it.
  induction entries generalizing depth with
  | nil =>
      intro function values value h
      cases h
  | cons entry rest ih =>
      obtain ⟨hentry, hrest⟩ := hsound
      intro function values value h
      cases depth with
      | zero => simp at hdepth
      | succ depth =>
          have hlater : rest.length ≤ depth := by simpa using hdepth
          have hmember : ∀ entry ∈ rest,
              definitions.find? (·.name == entry.definition.name) = some entry.definition :=
            fun other hother => hfind other (List.mem_cons_of_mem _ hother)
          by_cases hname : entry.definition.name = function
          · subst hname
            rw [meaningOf_cons_self] at h
            rw [invoke, hfind entry List.mem_cons_self]
            exact (ih hrest hmember hlater).applyDefinition (hentry (orFail_eq_ok.mp h))
          · rw [meaningOf_cons_of_ne hname] at h
            exact ih hrest hmember (by omega) h

theorem Sound.run_eq {fill : Float32} {definitions : List Definition} {entries : List Entry}
    (hsound : Sound fill entries)
    (hfind : ∀ entry ∈ entries,
      definitions.find? (·.name == entry.definition.name) = some entry.definition)
    {depth : ℕ} (hdepth : entries.length ≤ depth) {main : Definition} {arguments : List Value}
    {value : Value}
    (hmain : applyDefinition (meaningOf entries) fill main arguments = .ok value) :
    run ⟨definitions, main.toNode⟩ fill depth arguments = .ok value :=
  (hsound.agrees hfind hdepth).applyDefinition hmain

end NoiseShader.Meaning
