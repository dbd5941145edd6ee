import NoiseShader.Vector.Basic
import Mathlib.Tactic

/-!
# Vectors as lists of their components

A vector is its list of components, of which there are as many as its arity says.
What is done with a vector at once is then done with every component by itself,
and two vectors are equal if their components are.
-/

namespace NoiseShader

open Components (arity toList)

/-- The laws of component-wise access. -/
class LawfulComponents (V : Type → Type) [Components V] : Prop where
  length_toList {α : Type} (v : V α) : (toList v).length = arity V
  eq_of_toList {α : Type} (v w : V α) : toList v = toList w → v = w
  exists_toList {α : Type} (numbers : List α) : numbers.length = arity V →
    ∃ v : V α, toList v = numbers
  toList_map {α β : Type} (f : α → β) (v : V α) :
    toList (Components.map f v) = (toList v).map f
  toList_zipWith {α β γ : Type} (f : α → β → γ) (v : V α) (w : V β) :
    toList (Components.zipWith f v w) = List.zipWith f (toList v) (toList w)
  toList_replicate {α : Type} (c : α) :
    toList (Components.replicate c : V α) = List.replicate (arity V) c

attribute [simp] LawfulComponents.length_toList LawfulComponents.toList_map
  LawfulComponents.toList_zipWith LawfulComponents.toList_replicate

instance : LawfulComponents Vec2 where
  length_toList _ := rfl
  eq_of_toList v w hlist := by
    cases v
    cases w
    simpa [toList] using hlist
  exists_toList numbers hlength := by
    obtain ⟨x, y, rfl⟩ := List.length_eq_two.mp hlength
    exact ⟨⟨x, y⟩, rfl⟩
  toList_map _ _ := rfl
  toList_zipWith _ _ _ := rfl
  toList_replicate _ := rfl

instance : LawfulComponents Vec3 where
  length_toList _ := rfl
  eq_of_toList v w hlist := by
    cases v
    cases w
    simpa [toList] using hlist
  exists_toList numbers hlength := by
    obtain ⟨x, y, z, rfl⟩ := List.length_eq_three.mp hlength
    exact ⟨⟨x, y, z⟩, rfl⟩
  toList_map _ _ := rfl
  toList_zipWith _ _ _ := rfl
  toList_replicate _ := rfl

instance : LawfulComponents Vec4 where
  length_toList _ := rfl
  eq_of_toList v w hlist := by
    cases v
    cases w
    simpa [toList] using hlist
  exists_toList numbers hlength := by
    obtain ⟨x, rest, rfl⟩ := List.exists_cons_of_length_eq_add_one hlength
    obtain ⟨y, z, w, rfl⟩ := List.length_eq_three.mp (Nat.succ.inj hlength)
    exact ⟨⟨x, y, z, w⟩, rfl⟩
  toList_map _ _ := rfl
  toList_zipWith _ _ _ := rfl
  toList_replicate _ := rfl

namespace LawfulComponents

variable {V : Type → Type} [Components V] [LawfulComponents V] {α β γ : Type}

theorem zipWith_replicate (f : α → β → γ) (v : V α) (c : β) :
    Components.zipWith f v (Components.replicate c) = Components.map (f · c) v := by
  apply eq_of_toList
  rw [toList_zipWith, toList_replicate, toList_map, ← length_toList v]
  induction toList v with
  | nil => rfl
  | cons x rest ih => exact congrArg (f x c :: ·) ih

theorem replicate_zipWith (f : α → β → γ) (c : α) (v : V β) :
    Components.zipWith f (Components.replicate c) v = Components.map (f c) v := by
  apply eq_of_toList
  rw [toList_zipWith, toList_replicate, toList_map, ← length_toList v]
  induction toList v with
  | nil => rfl
  | cons x rest ih => exact congrArg (f c x :: ·) ih

theorem map_eq_map_iff {f g : α → β} {v : V α} :
    Components.map f v = Components.map g v ↔ ∀ x ∈ toList v, f x = g x := by
  rw [← List.map_inj_left, ← toList_map, ← toList_map]
  exact ⟨congrArg toList, eq_of_toList _ _⟩

end LawfulComponents

end NoiseShader
