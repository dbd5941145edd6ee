import NoiseShader.Proofs.Vector.Components
import NoiseShader.Proofs.Vector.Pattern
import Mathlib.Tactic

/-!
# Swizzles applied and composed

A swizzle picks components by their positions, and the letters of its pattern say
which positions these are.  Picking from what was picked is picking once, by the
positions picked from the first ones; so the letters that one pattern picks from
another are the pattern of the two swizzles in a row.
-/

namespace NoiseShader

open Components (toList)
open LawfulComponents (length_toList exists_toList)

/-! ## Picking by position -/

/-- The entries at some positions, of which those beyond the end have none. -/
def pick {α : Type} (entries : List α) (positions : List ℕ) : List α :=
  positions.filterMap (entries[·]?)

section Pick

variable {α β : Type} {entries : List α} {positions : List ℕ}

theorem map_pick (f : α → β) : (pick entries positions).map f = pick (entries.map f) positions := by
  rw [pick, pick, List.map_filterMap]
  simp only [List.getElem?_map]

variable (hwithin : ∀ i ∈ positions, i < entries.length)
include hwithin

theorem getElem?_pick (j : ℕ) :
    (pick entries positions)[j]? = positions[j]?.bind (entries[·]?) := by
  induction positions generalizing j with
  | nil => rfl
  | cons i rest ih =>
      obtain ⟨hi, hrest⟩ := List.forall_mem_cons.mp hwithin
      rw [pick, List.filterMap_cons_some (List.getElem?_eq_getElem hi)]
      cases j with
      | zero => simp [hi]
      | succ j => exact ih hrest j

theorem length_pick : (pick entries positions).length = positions.length := by
  induction positions with
  | nil => rfl
  | cons i rest ih =>
      obtain ⟨hi, hrest⟩ := List.forall_mem_cons.mp hwithin
      rw [pick, List.filterMap_cons_some (List.getElem?_eq_getElem hi), List.length_cons,
        List.length_cons]
      exact congrArg (· + 1) (ih hrest)

theorem pick_pick (others : List ℕ) :
    pick (pick entries positions) others = pick entries (pick positions others) := by
  conv_rhs => rw [pick, pick, List.filterMap_filterMap]
  simp only [pick.eq_1 (pick entries positions), getElem?_pick hwithin]

end Pick

/-! ## Bytes of patterns -/

theorem length_bytes (text : String) : (Text.bytes text).length = text.utf8ByteSize := by
  conv_rhs => rw [← @String.ofList_toList text]
  rw [String.utf8ByteSize, String.toByteArray_ofList, List.utf8Encode, List.size_toByteArray]
  rfl

theorem utf8EncodeChar_byteChar {b : UInt8} (hb : b.toNat ≤ 127) :
    String.utf8EncodeChar (byteChar b) = [b] := by
  have hvalid : b.toNat.isValidChar := .inl (by omega)
  have hcode : (byteChar b).val.toNat = b.toNat := by
    rw [byteChar, Char.ofNat, dif_pos hvalid]
    rfl
  simp only [String.utf8EncodeChar, hcode, hb, if_true, UInt8.ofNat_toNat]

/-- Bytes of the seven bit range are the bytes of a text. -/
theorem exists_bytes_eq {bytes : List UInt8} (hseven : ∀ b ∈ bytes, b.toNat ≤ 127) :
    ∃ text, Text.bytes text = bytes := by
  refine ⟨String.ofList (bytes.map byteChar), ?_⟩
  rw [Text.bytes, String.toList_ofList, List.flatMap_map]
  induction bytes with
  | nil => rfl
  | cons b rest ih =>
      obtain ⟨hb, hrest⟩ := List.forall_mem_cons.mp hseven
      rw [List.flatMap_cons, utf8EncodeChar_byteChar hb, ih hrest]
      rfl

namespace Swizzle

variable {arity : ℤ} {letters bytes : List UInt8}

theorem Spells.seven_bit (hspells : Spells arity letters bytes) : ∀ b ∈ bytes, b.toNat ≤ 127 := by
  intro b hb
  have hletter := List.mem_of_mem_take (hspells.letter_mem b hb)
  exact (range_of_mem hspells.set_mem b hletter).2.trans (by omega)

/-- The positions of letters are positions in the vectors that a pattern is for. -/
theorem Spells.index_lt (hspells : Spells arity letters bytes) :
    ∀ i ∈ bytes.map letters.idxOf, i < arity.toNat := by
  intro i hi
  obtain ⟨b, hb, rfl⟩ := List.mem_map.mp hi
  have hletter := hspells.letter_mem b hb
  exact (List.mem_take_iff_idxOf_lt (List.mem_of_mem_take hletter)).mp hletter

/-- The letters picked from a pattern by another one. -/
theorem Spells.pick {others pattern : List UInt8} (hspells : Spells arity letters bytes)
    (hothers : Spells bytes.length others pattern) :
    Spells arity letters (pick bytes (pattern.map others.idxOf)) := by
  have hwithin : ∀ i ∈ pattern.map others.idxOf, i < bytes.length := hothers.index_lt
  have hlength := length_pick hwithin
  rw [List.length_map] at hlength
  refine ⟨hspells.two_le, hspells.le_four, ?_, ?_, hspells.set_mem, ?_⟩
  · rw [hlength]
    exact hothers.one_le_length
  · rw [hlength]
    exact hothers.length_le_four
  · intro b hb
    obtain ⟨i, -, hi⟩ := List.mem_filterMap.mp hb
    exact hspells.letter_mem b (List.mem_of_getElem? hi)

/-! ## Applying swizzles -/

section Apply

variable {V : Type → Type} [Components V] {α : Type}

theorem apply_eq_ok_iff {selection : Swizzle} {v : V α} {wanted : ℕ} {out : List α} :
    selection.apply v wanted = .ok out ↔
      selection.arity ≠ 0 ∧ Components.arity V = selection.arity ∧ wanted = selection.length ∧
        out = pick (toList v) selection.indices := by
  unfold apply
  split_ifs with hunset harity hlength
  · simp [hunset]
  · simp [harity]
  · simp [hlength]
  · rw [not_not] at harity hlength
    simp [hunset, harity, hlength, pick, eq_comm]

theorem exists_apply_iff {selection : Swizzle} (hset : selection.arity ≠ 0) {v : V α}
    {wanted : ℕ} :
    (∃ out, selection.apply v wanted = .ok out) ↔
      Components.arity V = selection.arity ∧ wanted = selection.length := by
  simp only [apply_eq_ok_iff]
  constructor
  · rintro ⟨out, -, harity, hwanted, -⟩
    exact ⟨harity, hwanted⟩
  · rintro ⟨harity, hwanted⟩
    exact ⟨_, hset, harity, hwanted, rfl⟩

/-- Every letter stands for the component at its place in its set. -/
structure Selects (bytes : List UInt8) (components out : List α) : Prop where
  length_eq : out.length = bytes.length
  getElem?_eq : ∀ {i j : ℕ} {b : UInt8} {letters : List UInt8}, bytes[i]? = some b →
    letters ∈ ["xyzw", "rgba", "stpq"].map Text.bytes → letters[j]? = some b →
      j < components.length ∧ out[i]? = components[j]?

theorem nodup_of_mem_letterSets (hletters : letters ∈ letterSets) : letters.Nodup := by
  have hall : letterSets.all (fun letters => decide letters.Nodup) = true := rfl
  simpa using List.all_eq_true.mp hall letters hletters

/-- A letter is in one set, at one place. -/
theorem Spells.place_unique (hspells : Spells arity letters bytes) {b : UInt8} (hb : b ∈ bytes)
    {others : List UInt8} {j : ℕ} (hothers : others ∈ letterSets) (hj : others[j]? = some b) :
    letters.idxOf b = j := by
  have hletter := List.mem_of_mem_take (hspells.letter_mem b hb)
  have hsame : some letters = some others := by
    rw [← find?_letterSets hspells.set_mem hletter,
      ← find?_letterSets hothers (List.mem_of_getElem? hj)]
  obtain ⟨hlt, hget⟩ := List.getElem?_eq_some_iff.mp hj
  rw [Option.some.inj hsame, ← hget]
  exact (nodup_of_mem_letterSets hothers).idxOf_getElem j hlt

theorem Spells.selects (hspells : Spells arity letters bytes) {components : List α}
    (hcomponents : components.length = arity.toNat) :
    Selects bytes components (NoiseShader.pick components (bytes.map letters.idxOf)) := by
  have hwithin : ∀ i ∈ bytes.map letters.idxOf, i < components.length := by
    rw [hcomponents]
    exact hspells.index_lt
  refine ⟨by rw [length_pick hwithin, List.length_map], ?_⟩
  intro i j b others hb hothers hj
  have hplace := hspells.place_unique (List.mem_of_getElem? hb) hothers hj
  rw [getElem?_pick hwithin, List.getElem?_map, hb, Option.map_some, Option.bind_some, hplace]
  refine ⟨?_, rfl⟩
  rw [← hplace]
  exact hwithin _ (List.mem_map_of_mem (List.mem_of_getElem? hb))

end Apply

/-! ## Composing swizzles -/

theorem spells_of_ofPattern {pattern : String} {selection : Swizzle}
    (hbuilt : ofPattern arity pattern = .ok selection) :
    ∃ letters, Spells arity letters (Text.bytes pattern) ∧ selection.pattern = pattern ∧
      selection.arity = arity.toNat ∧ selection.length = (Text.bytes pattern).length ∧
      selection.indices = (Text.bytes pattern).map letters.idxOf := by
  obtain ⟨letters, hspells, rfl⟩ := ofPattern_eq_ok_iff.mp hbuilt
  exact ⟨letters, hspells, rfl, rfl, (length_bytes pattern).symm, rfl⟩

/-- The text whose letters are those of a pattern at the positions of another swizzle. -/
structure Chains (pattern : String) (next : Swizzle) (chained : String) : Prop where
  length_eq : (Text.bytes chained).length = next.length
  getElem?_eq : ∀ {i j : ℕ}, next.indices[i]? = some j →
    j < (Text.bytes pattern).length ∧ (Text.bytes chained)[i]? = (Text.bytes pattern)[j]?

section Chained

variable {pattern other : String} {first second : Swizzle}

theorem chains_iff (hsecond : ofPattern (Text.bytes pattern).length other = .ok second)
    {chained : String} :
    Chains pattern second chained ↔
      Text.bytes chained = pick (Text.bytes pattern) second.indices := by
  obtain ⟨letters, hspells, -, -, hlength, hindices⟩ := spells_of_ofPattern hsecond
  have hwithin : ∀ i ∈ second.indices, i < (Text.bytes pattern).length := by
    rw [hindices]
    exact hspells.index_lt
  have hsame : second.indices.length = second.length := by
    rw [hindices, List.length_map, hlength]
  constructor
  · intro hchains
    apply List.ext_getElem?
    intro i
    rw [getElem?_pick hwithin]
    cases hj : second.indices[i]? with
    | none =>
        rw [List.getElem?_eq_none_iff, hsame, ← hchains.length_eq] at hj
        exact List.getElem?_eq_none_iff.mpr hj
    | some j => exact (hchains.getElem?_eq hj).2
  · intro hbytes
    refine ⟨by rw [hbytes, length_pick hwithin, hsame], fun {i j} hj => ?_⟩
    rw [hbytes, getElem?_pick hwithin, hj]
    exact ⟨hwithin j (List.mem_of_getElem? hj), rfl⟩

variable (hfirst : ofPattern arity pattern = .ok first)
  (hsecond : ofPattern (Text.bytes pattern).length other = .ok second)
include hfirst hsecond

theorem spells_chained :
    ∃ letters, Spells arity letters (pick (Text.bytes pattern) second.indices) ∧
      first.indices = (Text.bytes pattern).map letters.idxOf := by
  obtain ⟨letters, hspells, -, -, -, hindices⟩ := spells_of_ofPattern hfirst
  obtain ⟨others, hothers, -, -, -, hindices'⟩ := spells_of_ofPattern hsecond
  rw [hindices']
  exact ⟨letters, hspells.pick hothers, hindices⟩

theorem exists_chains : ∃ chained, Chains pattern second chained := by
  obtain ⟨letters, hspells, -⟩ := spells_chained hfirst hsecond
  obtain ⟨chained, hbytes⟩ := exists_bytes_eq hspells.seven_bit
  exact ⟨chained, (chains_iff hsecond).mpr hbytes⟩

/-- Two swizzles in a row are one, whose pattern has the letters that the second one selects from
the pattern of the first. -/
theorem Chains.exists_ofPattern {chained : String} (hchains : Chains pattern second chained) :
    ∃ both, ofPattern arity chained = .ok both ∧
      both.indices = pick first.indices second.indices := by
  obtain ⟨letters, hspells, hindices⟩ := spells_chained hfirst hsecond
  rw [← (chains_iff hsecond).mp hchains] at hspells
  refine ⟨_, ofPattern_eq_ok_iff.mpr ⟨letters, hspells, rfl⟩, ?_⟩
  rw [(chains_iff hsecond).mp hchains, map_pick, hindices]

end Chained

section Chain

variable {V W : Type → Type} [Components V] [LawfulComponents V] [Components W]
  [LawfulComponents W] {α : Type}

theorem exists_apply {pattern : String} {selection : Swizzle}
    (hbuilt : ofPattern arity pattern = .ok selection) (harity : (Components.arity V : ℤ) = arity)
    (v : V α) :
    selection.apply v selection.length = .ok (pick (toList v) selection.indices) ∧
      Selects (Text.bytes pattern) (toList v) (pick (toList v) selection.indices) := by
  obtain ⟨letters, hspells, -, hselection, -, hindices⟩ := spells_of_ofPattern hbuilt
  have htwo := hspells.two_le
  refine ⟨apply_eq_ok_iff.mpr ⟨by omega, by omega, rfl, rfl⟩, ?_⟩
  rw [hindices]
  exact hspells.selects (by rw [length_toList]; omega)

theorem exists_apply_chained {pattern other chained : String} {first second both : Swizzle}
    (hfirst : ofPattern arity pattern = .ok first)
    (hsecond : ofPattern first.length other = .ok second)
    (hboth : ofPattern arity chained = .ok both)
    (hindices : both.indices = pick first.indices second.indices)
    (harity : (Components.arity V : ℤ) = arity) (harity' : Components.arity W = first.length)
    (v : V α) :
    ∃ w : W α, first.apply v first.length = .ok (toList w) ∧
      second.apply w second.length = both.apply v both.length := by
  obtain ⟨letters, hspells, -, -, hlength, hpositions⟩ := spells_of_ofPattern hfirst
  obtain ⟨hok, hselects⟩ := exists_apply hfirst harity v
  obtain ⟨w, hw⟩ := exists_toList (V := W) (pick (toList v) first.indices)
    (by rw [hselects.length_eq, harity', hlength])
  refine ⟨w, hw ▸ hok, ?_⟩
  have hwithin : ∀ i ∈ first.indices, i < (toList v).length := by
    rw [hpositions, length_toList]
    intro i hi
    have := hspells.index_lt i hi
    omega
  rw [(exists_apply hsecond (by exact_mod_cast harity') w).1, (exists_apply hboth harity v).1, hw,
    hindices, pick_pick hwithin]

end Chain

theorem exists_indicesOf_iff :
    (∃ indices, indicesOf arity bytes = .ok indices) ↔
      2 ≤ arity ∧ arity ≤ 4 ∧ 1 ≤ bytes.length ∧ bytes.length ≤ 4 ∧
        ∃ letters ∈ letterSets, ∀ b ∈ bytes, b ∈ letters.take arity.toNat := by
  simp only [indicesOf_eq_ok_iff]
  constructor
  · rintro ⟨-, letters, hspells, -⟩
    exact ⟨hspells.two_le, hspells.le_four, hspells.one_le_length, hspells.length_le_four,
      letters, hspells.set_mem, hspells.letter_mem⟩
  · rintro ⟨htwo, hfour, hone, hlength, letters, hset, hletter⟩
    exact ⟨_, letters, ⟨htwo, hfour, hone, hlength, hset, hletter⟩, rfl⟩

theorem exists_ofPattern_iff {pattern : String} :
    (∃ selection, ofPattern arity pattern = .ok selection) ↔
      ∃ indices, indicesOf arity (Text.bytes pattern) = .ok indices := by
  constructor
  · rintro ⟨selection, hbuilt⟩
    obtain ⟨letters, hspells, -⟩ := ofPattern_eq_ok_iff.mp hbuilt
    exact ⟨_, indicesOf_eq_ok_iff.mpr ⟨letters, hspells, rfl⟩⟩
  · rintro ⟨indices, hindices⟩
    obtain ⟨letters, hspells, -⟩ := indicesOf_eq_ok_iff.mp hindices
    exact ⟨_, ofPattern_eq_ok_iff.mpr ⟨letters, hspells, rfl⟩⟩

/-- A pattern is accepted exactly if it has one to four of the letters that one set has for the
components, each letter selects the component at its place in the set, and two swizzles in a row
are the one with the letters that the second selects from the first. -/
theorem patterns_select_and_chain :
    (∀ (arity : ℤ) (bytes : List UInt8),
      ((∃ indices, indicesOf arity bytes = .ok indices) ↔
        2 ≤ arity ∧ arity ≤ 4 ∧ 1 ≤ bytes.length ∧ bytes.length ≤ 4 ∧
          ∃ letters ∈ ["xyzw", "rgba", "stpq"].map Text.bytes,
            ∀ b ∈ bytes, b ∈ letters.take arity.toNat) ∧
      ((∃ indices, indicesOf arity bytes = .ok indices) →
        ∃ pattern, Text.bytes pattern = bytes)) ∧
    (∀ (arity : ℤ) (pattern : String),
      (∃ selection, ofPattern arity pattern = .ok selection) ↔
        ∃ indices, indicesOf arity (Text.bytes pattern) = .ok indices) ∧
    (∀ {arity : ℤ} {pattern : String} {selection : Swizzle},
      ofPattern arity pattern = .ok selection →
        (selection.pattern = pattern ∧ selection.arity = arity ∧
          selection.length = (Text.bytes pattern).length ∧
          indicesOf arity (Text.bytes pattern) = .ok selection.indices) ∧
        ∀ {V : Type → Type} [Components V] [LawfulComponents V] {α : Type} (v : V α) (wanted : ℕ),
          ((∃ out, selection.apply v wanted = .ok out) ↔
            Components.arity V = selection.arity ∧ wanted = selection.length) ∧
          ∀ out, selection.apply v wanted = .ok out →
            Selects (Text.bytes pattern) (toList v) out) ∧
    (∀ {V : Type → Type} [Components V] {α : Type} (v : V α) (wanted : ℕ),
      unset.apply v wanted = .error .unset) ∧
    ∀ {arity : ℤ} {pattern other : String} {first second : Swizzle},
      ofPattern arity pattern = .ok first → ofPattern first.length other = .ok second →
        (∃ chained, Chains pattern second chained) ∧
        ∀ chained, Chains pattern second chained → ∃ both, ofPattern arity chained = .ok both ∧
          ∀ {V W : Type → Type} [Components V] [LawfulComponents V] [Components W]
            [LawfulComponents W] {α : Type} (v : V α),
            Components.arity V = arity → Components.arity W = first.length →
              ∃ w : W α, first.apply v first.length = .ok (toList w) ∧
                second.apply w second.length = both.apply v both.length := by
  refine ⟨fun arity bytes => ⟨?_, ?_⟩, fun arity pattern => ?_, ?_, fun v wanted => rfl, ?_⟩
  · exact exists_indicesOf_iff
  · rintro ⟨indices, hindices⟩
    obtain ⟨letters, hspells, -⟩ := indicesOf_eq_ok_iff.mp hindices
    exact exists_bytes_eq hspells.seven_bit
  · exact exists_ofPattern_iff
  · intro arity pattern selection hbuilt
    obtain ⟨letters, hspells, hpattern, harity, hlength, hindices⟩ := spells_of_ofPattern hbuilt
    have htwo := hspells.two_le
    refine ⟨⟨hpattern, by omega, hlength, indicesOf_eq_ok_iff.mpr ⟨letters, hspells, hindices⟩⟩,
      fun v wanted => ⟨exists_apply_iff (by omega), fun out happly => ?_⟩⟩
    obtain ⟨-, hsize, -, rfl⟩ := apply_eq_ok_iff.mp happly
    exact (exists_apply hbuilt (by omega) v).2
  · intro arity pattern other first second hfirst hsecond
    obtain ⟨letters, -, -, -, hlength, -⟩ := spells_of_ofPattern hfirst
    have hbytes := hlength ▸ hsecond
    refine ⟨exists_chains hfirst hbytes, fun chained hchains => ?_⟩
    obtain ⟨both, hboth, hindices⟩ := hchains.exists_ofPattern hfirst hbytes
    exact ⟨both, hboth, fun v harity harity' =>
      exists_apply_chained hfirst hsecond hboth hindices harity harity' v⟩

theorem patterns_select_and_chain_crossed :
    ofPattern 4 "wzx" = .ok ⟨4, "wzx", [3, 2, 0]⟩ ∧ ofPattern 3 "bgb" = .ok ⟨3, "bgb", [2, 1, 2]⟩ ∧
      (∃ out, apply ⟨4, "wzx", [3, 2, 0]⟩ (⟨5, 6, 7, 8⟩ : Vec4 ℕ) 3 = .ok out) ∧
      Chains "wzx" ⟨3, "bgb", [2, 1, 2]⟩ "xzx" ∧
      ∃ both, ofPattern 4 "xzx" = .ok both ∧
        ∃ w : Vec3 ℕ, apply ⟨4, "wzx", [3, 2, 0]⟩ (⟨5, 6, 7, 8⟩ : Vec4 ℕ) 3 = .ok (toList w) ∧
          apply ⟨3, "bgb", [2, 1, 2]⟩ w 3 = both.apply (⟨5, 6, 7, 8⟩ : Vec4 ℕ) both.length := by
  have hfirst : ofPattern 4 "wzx" = .ok ⟨4, "wzx", [3, 2, 0]⟩ := by decide
  have hsecond : ofPattern 3 "bgb" = .ok ⟨3, "bgb", [2, 1, 2]⟩ := by decide
  have hchains : Chains "wzx" ⟨3, "bgb", [2, 1, 2]⟩ "xzx" :=
    (@chains_iff "wzx" "bgb" _ hsecond "xzx").mpr (by decide)
  obtain ⟨-, -, hselect, -, hchain⟩ := patterns_select_and_chain
  obtain ⟨both, hboth, happly⟩ := (hchain hfirst hsecond).2 "xzx" hchains
  exact ⟨hfirst, hsecond, ((hselect hfirst).2 _ 3).1.mpr ⟨rfl, rfl⟩, hchains, both, hboth,
    happly _ rfl rfl⟩

end Swizzle

end NoiseShader
