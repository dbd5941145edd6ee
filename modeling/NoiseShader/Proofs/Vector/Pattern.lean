import NoiseShader.Vector.Swizzle
import Mathlib.Tactic

/-!
# Letters of swizzle patterns

Patterns are measured and searched byte by byte, while everything that writes
them out sees characters.  A pattern that was accepted has only small letters,
whichever way it is looked at: a character with more than one byte has no byte
in the range of the letters.
-/

namespace NoiseShader

/-- A character outside the seven bit range has no byte inside it. -/
theorem isLower_of_utf8EncodeChar {c : Char}
    (hbytes : ∀ b ∈ String.utf8EncodeChar c, 97 ≤ b.toNat ∧ b.toNat ≤ 122) :
    c.isLower = true := by
  unfold String.utf8EncodeChar at hbytes
  simp only at hbytes
  split_ifs at hbytes with hseven htwo hthree
  · have hbyte := hbytes _ (List.mem_singleton_self _)
    rw [UInt8.toNat_ofNat'] at hbyte
    unfold Char.isLower
    simp only [Bool.and_eq_true, decide_eq_true_eq, ge_iff_le, UInt32.le_iff_toNat_le]
    change 97 ≤ c.val.toNat ∧ c.val.toNat ≤ 122
    omega
  · have hbyte := hbytes _ List.mem_cons_self
    rw [UInt8.toNat_ofNat'] at hbyte
    omega
  · have hbyte := hbytes _ List.mem_cons_self
    rw [UInt8.toNat_ofNat'] at hbyte
    omega
  · have hbyte := hbytes _ List.mem_cons_self
    rw [UInt8.toNat_ofNat'] at hbyte
    omega

namespace Swizzle

theorem range_of_mem {letters : List UInt8} (hletters : letters ∈ letterSets) :
    ∀ b ∈ letters, 97 ≤ b.toNat ∧ b.toNat ≤ 122 := by
  have hall : letterSets.all (·.all fun b => 97 ≤ b.toNat && b.toNat ≤ 122) = true := rfl
  intro b hb
  simpa using List.all_eq_true.mp (List.all_eq_true.mp hall letters hletters) b hb

/-- Bytes that are a pattern for vectors of `arity` components: one to four of the letters that a
set has for these components. -/
structure Spells (arity : ℤ) (letters bytes : List UInt8) : Prop where
  two_le : 2 ≤ arity
  le_four : arity ≤ 4
  one_le_length : 1 ≤ bytes.length
  length_le_four : bytes.length ≤ 4
  set_mem : letters ∈ letterSets
  letter_mem : ∀ b ∈ bytes, b ∈ letters.take arity.toNat

/-- A letter belongs to one set only, so the set is found by any of its letters. -/
theorem find?_letterSets {letters : List UInt8} {b : UInt8} (hletters : letters ∈ letterSets)
    (hb : b ∈ letters) : letterSets.find? (·.contains b) = some letters := by
  have hall : letterSets.all (fun letters => letters.all fun b =>
      letterSets.find? (·.contains b) == some letters) = true := rfl
  simpa using List.all_eq_true.mp (List.all_eq_true.mp hall letters hletters) b hb

theorem indicesIn_eq_ok_iff {arity : ℤ} {letters bytes : List UInt8} {indices : List ℕ} :
    indicesIn arity letters bytes = .ok indices ↔
      (∀ b ∈ bytes, b ∈ letters.take arity.toNat) ∧ indices = bytes.map letters.idxOf := by
  induction bytes generalizing indices with
  | nil => simp [indicesIn, eq_comm]
  | cons letter rest ih =>
      rw [List.forall_mem_cons, List.map_cons]
      unfold indicesIn
      cases hindex : letters.idxOf? letter with
      | none =>
          have hforeign : letter ∉ letters.take arity.toNat := fun hmember =>
            List.idxOf?_eq_none_iff.mp hindex (List.mem_of_mem_take hmember)
          simp [hforeign]
      | some index =>
          have hmember : letter ∈ letters := List.isSome_idxOf?.mp (by rw [hindex]; rfl)
          have hposition : letters.idxOf letter = index := by
            rw [List.idxOf_eq_getD_idxOf?, hindex]
            rfl
          rw [List.mem_take_iff_idxOf_lt hmember, hposition]
          by_cases hrange : arity ≤ index
          · have hbeyond : ¬ index < arity.toNat := by omega
            simp [hrange, hbeyond]
          · have hwithin : index < arity.toNat := by omega
            simp only [hrange, if_false, hwithin, true_and]
            cases hrest : indicesIn arity letters rest with
            | error fault =>
                have hnone := fun others => (not_congr (@ih others)).mp (by simp [hrest])
                simp only [Except.map, reduceCtorEq, false_iff]
                rintro ⟨hall, -⟩
                exact hnone _ ⟨hall, rfl⟩
            | ok others =>
                obtain ⟨hall, rfl⟩ := ih.mp hrest
                rw [and_iff_right hall]
                simp [Except.map, eq_comm]

/-- What is accepted, and which components it selects. -/
theorem indicesOf_eq_ok_iff {arity : ℤ} {bytes : List UInt8} {indices : List ℕ} :
    indicesOf arity bytes = .ok indices ↔
      ∃ letters, Spells arity letters bytes ∧ indices = bytes.map letters.idxOf := by
  unfold indicesOf
  by_cases harity : arity < 2 ∨ 4 < arity
  · rw [if_pos harity]
    simp only [reduceCtorEq, false_iff]
    rintro ⟨letters, hspells, -⟩
    have := hspells.two_le
    have := hspells.le_four
    omega
  · rw [if_neg harity]
    cases bytes with
    | nil =>
        simp only [reduceCtorEq, false_iff]
        rintro ⟨letters, hspells, -⟩
        exact absurd hspells.one_le_length (by simp)
    | cons first rest =>
        by_cases hlong : 4 < (first :: rest).length
        · simp only [hlong, if_true, reduceCtorEq, false_iff]
          rintro ⟨letters, hspells, -⟩
          exact absurd hspells.length_le_four (by omega)
        · simp only [hlong, if_false]
          have hfirst : ∀ {letters}, Spells arity letters (first :: rest) →
              letterSets.find? (·.contains first) = some letters := fun hspells =>
            find?_letterSets hspells.set_mem
              (List.mem_of_mem_take (hspells.letter_mem first List.mem_cons_self))
          cases hfind : letterSets.find? (·.contains first) with
          | none =>
              simp only [reduceCtorEq, false_iff]
              rintro ⟨letters, hspells, -⟩
              rw [hfirst hspells] at hfind
              cases hfind
          | some letters =>
              simp only [indicesIn_eq_ok_iff]
              constructor
              · rintro ⟨hmember, hindices⟩
                exact ⟨letters, ⟨by omega, by omega, by simp, by omega,
                  List.mem_of_find?_eq_some hfind, hmember⟩, hindices⟩
              · rintro ⟨others, hspells, hindices⟩
                cases hfind.symm.trans (hfirst hspells)
                exact ⟨hspells.letter_mem, hindices⟩

theorem ofPattern_eq_ok_iff {arity : ℤ} {pattern : String} {selection : Swizzle} :
    ofPattern arity pattern = .ok selection ↔
      ∃ letters, Spells arity letters (Text.bytes pattern) ∧
        selection = ⟨arity.toNat, pattern, (Text.bytes pattern).map letters.idxOf⟩ := by
  unfold ofPattern
  cases hindices : indicesOf arity (Text.bytes pattern) with
  | error fault =>
      simp only [reduceCtorEq, false_iff]
      rintro ⟨letters, hspells, -⟩
      rw [indicesOf_eq_ok_iff.mpr ⟨letters, hspells, rfl⟩] at hindices
      cases hindices
  | ok indices =>
      obtain ⟨letters, hspells, rfl⟩ := indicesOf_eq_ok_iff.mp hindices
      constructor
      · rintro ⟨⟩
        exact ⟨letters, hspells, rfl⟩
      · rintro ⟨others, hothers, rfl⟩
        rw [indicesOf_eq_ok_iff.mpr ⟨others, hothers, rfl⟩] at hindices
        rw [Except.ok.inj hindices]

theorem ofPattern_spec {pattern : String} {arity : ℤ} {selection : Swizzle}
    (hbuilt : ofPattern arity pattern = .ok selection) :
    selection.pattern = pattern ∧ selection.arity ≠ 0 ∧ Text.bytes pattern ≠ [] ∧
      ∃ letters ∈ letterSets, ∀ b ∈ Text.bytes pattern, b ∈ letters := by
  obtain ⟨letters, hspells, rfl⟩ := ofPattern_eq_ok_iff.mp hbuilt
  refine ⟨rfl, ?_, ?_, letters, hspells.set_mem, fun b hb =>
    List.mem_of_mem_take (hspells.letter_mem b hb)⟩
  · have := hspells.two_le
    simp
    omega
  · exact List.ne_nil_of_length_pos hspells.one_le_length

/-- An accepted pattern is a word of small letters. -/
theorem pattern_letters {pattern : String} {arity : ℤ} {selection : Swizzle}
    (hbuilt : ofPattern arity pattern = .ok selection) :
    selection.pattern.toList ≠ [] ∧ ∀ c ∈ selection.pattern.toList, c.isLower = true := by
  obtain ⟨hpattern, -, hne, letters, hletters, hbytes⟩ := ofPattern_spec hbuilt
  rw [hpattern]
  constructor
  · intro hempty
    exact hne (by rw [Text.bytes, hempty]; rfl)
  · intro c hc
    apply isLower_of_utf8EncodeChar
    intro b hb
    exact range_of_mem hletters b (hbytes b (List.mem_flatMap.mpr ⟨c, hc, hb⟩))

end Swizzle

end NoiseShader
