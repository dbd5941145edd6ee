import NoiseShader.Proofs.Program.Merging
import Mathlib.Tactic

/-!
# Fingerprints that collide

Mixing a block into a fingerprint loses nothing, neither of the block nor of the
word that was there before.  Texts that differ in a single block therefore have
different fingerprints.  A second block can make up for the first, and then a
merge takes two definitions of one name for the same although their sources
differ.
-/

namespace NoiseShader

namespace Fingerprint

theorem eq_of_mul_eq {factor inverse x y : UInt64} (hunit : factor * inverse = 1)
    (hproduct : x * factor = y * factor) : x = y := by
  have hscaled : x * factor * inverse = y * factor * inverse := by rw [hproduct]
  simpa only [UInt64.mul_assoc, hunit, UInt64.mul_one] using hscaled

theorem eq_zero_of_shiftRight_eq {word amount : UInt64} (hamount : amount.toNat % 64 ≠ 0)
    (hfixed : word >>> amount = word) : word = 0 := by
  have hdivided : word.toNat / 2 ^ (amount.toNat % 64) = word.toNat := by
    rw [← Nat.shiftRight_eq_div_pow, ← UInt64.toNat_shiftRight, hfixed]
  by_contra hword
  have hpositive : 0 < word.toNat :=
    Nat.pos_of_ne_zero fun hzero => hword (UInt64.toNat_inj.mp hzero)
  have hsmaller := Nat.div_lt_self hpositive (Nat.one_lt_two_pow hamount)
  omega

theorem eq_of_xor_shiftRight_eq {x y amount : UInt64} (hamount : amount.toNat % 64 ≠ 0)
    (hmixed : x ^^^ (x >>> amount) = y ^^^ (y >>> amount)) : x = y := by
  -- The difference of the two words is its own shift.
  have hfixed : (x ^^^ y) >>> amount = x ^^^ y := by
    calc (x ^^^ y) >>> amount
        = x ^^^ (x ^^^ (x >>> amount)) ^^^ (y >>> amount) := by
          rw [UInt64.shiftRight_xor, ← UInt64.xor_assoc x x, UInt64.xor_self, UInt64.zero_xor]
      _ = x ^^^ (y ^^^ (y >>> amount)) ^^^ (y >>> amount) := by rw [hmixed]
      _ = x ^^^ y := by
          rw [UInt64.xor_assoc, UInt64.xor_assoc y, UInt64.xor_self, UInt64.xor_zero]
  exact UInt64.xor_eq_zero_iff.mp (eq_zero_of_shiftRight_eq hamount hfixed)

theorem scramble_injective : Function.Injective scramble := by
  intro x y hscrambled
  have hfirst : (0xbf58476d1ce4e5b9 : UInt64) * 0x96de1b173f119089 = 1 := by decide
  have hsecond : (0x94d049bb133111eb : UInt64) * 0x319642b2d24d8ec3 = 1 := by decide
  have houter := eq_of_mul_eq hsecond (eq_of_xor_shiftRight_eq (by decide) hscrambled)
  have hinner := eq_of_mul_eq hfirst (eq_of_xor_shiftRight_eq (by decide) houter)
  exact eq_of_xor_shiftRight_eq (by decide) hinner

theorem eq_of_absorb_eq_left {x y block : UInt64} (hsame : absorb x block = absorb y block) :
    x = y :=
  (UInt64.xor_left_inj block).mp (scramble_injective hsame)

theorem eq_of_absorb_eq_right {state x y : UInt64} (hsame : absorb state x = absorb state y) :
    x = y :=
  (UInt64.xor_right_inj state).mp (scramble_injective hsame)

theorem eq_of_foldl_absorb_eq {x y : UInt64} {words : List UInt64}
    (hsame : words.foldl absorb x = words.foldl absorb y) : x = y := by
  induction words generalizing x y with
  | nil => exact hsame
  | cons word rest ih => exact eq_of_absorb_eq_left (ih hsame)

theorem eq_of_foldl_absorb_append {seed x y : UInt64} {front back : List UInt64}
    (hsame : (front ++ x :: back).foldl absorb seed = (front ++ y :: back).foldl absorb seed) :
    x = y := by
  simp only [List.foldl_append, List.foldl_cons] at hsame
  exact eq_of_absorb_eq_right (eq_of_foldl_absorb_eq hsame)

end Fingerprint

/-! ## Two definitions of one name -/

def DifferInOneBlock (first second : String) : Prop :=
  ∃ front x y back, Fingerprint.blocks (Text.bytes first) = front ++ x :: back ∧
    Fingerprint.blocks (Text.bytes second) = front ++ y :: back ∧ x ≠ y

theorem sourceMark_ne_of_differInOneBlock {first second : Definition}
    (hname : first.name = second.name)
    (hdiffer : DifferInOneBlock first.source second.source) :
    first.sourceMark ≠ second.sourceMark := by
  obtain ⟨front, x, y, back, hfirst, hsecond, hdifferent⟩ := hdiffer
  intro hsame
  unfold Definition.sourceMark Definition.nameMark Fingerprint.ofText Fingerprint.ofBytes at hsame
  rw [hname, hfirst, hsecond] at hsame
  exact hdifferent (Fingerprint.eq_of_foldl_absorb_append hsame)

theorem mergeDefinitions_pair {first second : Definition} (hname : first.name = second.name)
    (hnamed : first.name ≠ "") (hfirst : first.toNode.render.isOk = true)
    (hsecond : second.toNode.render.isOk = true) :
    mergeDefinitions [[first], [second]] =
      if first.sourceMark = second.sourceMark then .ok [first]
      else .error (.conflict second.name second.source) := by
  let merge : Merge := ⟨[first], [(first.nameMark, first.sourceMark)]⟩
  have hinsertFirst : Merge.empty.insert first = .ok merge :=
    Merge.insert_eq rfl hnamed (Definition.render_eq_source hfirst) (by simp [Merge.empty])
  have hfaithful : merge.Faithful := rfl
  have hnamedSecond : second.name ≠ "" := hname ▸ hnamed
  have hinsertSecond : merge.insert second =
      if first.sourceMark = second.sourceMark then .ok merge
      else .error (.conflict second.name second.source) := by
    have hsame : (first.name == second.name) = true := beq_iff_eq.mpr hname
    rw [Merge.insert_eq hfaithful hnamedSecond (Definition.render_eq_source hsecond)
      (by simp [merge, hname])]
    simp only [merge, List.find?_cons, hsame]
  have hmerge : mergeDefinitions [[first], [second]] =
      (merge.insert second).map Merge.definitions := by
    have hfold : [[first], [second]].flatten.foldlM Merge.insert Merge.empty =
        merge.insert second := by
      change (Merge.empty.insert first >>= fun next => next.insert second >>= pure) = _
      simp only [hinsertFirst, bind_pure]
      rfl
    unfold mergeDefinitions
    rw [hfold]
    cases merge.insert second <;> rfl
  rw [hmerge, hinsertSecond]
  split_ifs <;> rfl

/-- Two definitions of one name merge exactly if the fingerprints of their sources agree.  These do
agree for equal sources, and they differ for sources that differ in one block. -/
theorem mergeDefinitions_pair_accepts_iff {first second : Definition}
    (hname : first.name = second.name) (hnamed : first.name ≠ "")
    (hfirst : first.toNode.render.isOk = true) (hsecond : second.toNode.render.isOk = true) :
    ((∃ merged, mergeDefinitions [[first], [second]] = .ok merged) ↔
        first.sourceMark = second.sourceMark) ∧
      (first.source = second.source → mergeDefinitions [[first], [second]] = .ok [first]) ∧
      (DifferInOneBlock first.source second.source →
        mergeDefinitions [[first], [second]] =
          .error (.conflict second.name second.source)) := by
  have hpair := mergeDefinitions_pair hname hnamed hfirst hsecond
  refine ⟨?_, ?_, ?_⟩
  · rw [hpair]
    by_cases hsame : first.sourceMark = second.sourceMark <;> simp [hsame]
  · intro hsource
    have hsame : first.sourceMark = second.sourceMark := by
      unfold Definition.sourceMark Definition.nameMark
      rw [hname, hsource]
    rw [hpair, if_pos hsame]
  · intro hdiffer
    rw [hpair, if_neg (sourceMark_ne_of_differInOneBlock hname hdiffer)]

/-- A function that returns the value of a variable. -/
def shade (color : String) : Definition :=
  ⟨"shade", "float", [], [.result (.identifier color)]⟩

theorem mergeDefinitions_pair_accepts_iff_shades :
    (shade "red").name = (shade "tan").name ∧ (shade "red").name ≠ "" ∧
      (shade "red").toNode.render.isOk = true ∧ (shade "tan").toNode.render.isOk = true ∧
      DifferInOneBlock (shade "red").source (shade "tan").source ∧
      mergeDefinitions [[shade "red"], [shade "tan"]] =
        .error (.conflict "shade" "float shade() \x7b\n\treturn tan;\n\x7d") := by
  have hdiffer : DifferInOneBlock (shade "red").source (shade "tan").source :=
    ⟨(Fingerprint.blocks (Text.bytes (shade "red").source)).take 3, _, _, [], rfl, rfl, by decide⟩
  have hmerge :=
    (@mergeDefinitions_pair_accepts_iff (shade "red") (shade "tan") rfl (by decide) rfl
      rfl).2.2 hdiffer
  exact ⟨rfl, by decide, rfl, rfl, hdiffer, hmerge⟩

/-- The two sources differ in the two blocks of the variable, and their fingerprints agree. -/
theorem mergeDefinitions_drops_conflicting_shade :
    Build.definition "float" "shade" [] [.result (.identifier "pinkbluerangdoti")] =
        .ok (shade "pinkbluerangdoti") ∧
      Build.definition "float" "shade" [] [.result (.identifier "noongoldwycnvyso")] =
        .ok (shade "noongoldwycnvyso") ∧
      (shade "pinkbluerangdoti").toNode.render ≠ (shade "noongoldwycnvyso").toNode.render ∧
      mergeDefinitions [[shade "pinkbluerangdoti"], [shade "noongoldwycnvyso"]] =
        .ok [shade "pinkbluerangdoti"] := by
  refine ⟨by rfl, by rfl, by decide, by rfl⟩

end NoiseShader
