import NoiseShader.Proofs.Program.Collision
import Mathlib.Data.Nat.Digits.Lemmas

/-!
# Fingerprints that differ

A block is the number whose digits to the base 256 are its bytes.  Blocks of one
length are therefore different words if any of their bytes differ, and so are
blocks of any length without zero bytes, since the zeros that fill them up add no
digits.  Bytes that differ inside one block only are cut into words that differ at
one place, and a fingerprint never loses a single difference.
-/

namespace NoiseShader

namespace Fingerprint

/-! ## Blocks as numbers -/

theorem digit_lt (bytes : List UInt8) : ∀ digit ∈ bytes.map UInt8.toNat, digit < 256 := by
  intro digit hdigit
  obtain ⟨byte, -, rfl⟩ := List.mem_map.mp hdigit
  exact byte.toNat_lt

theorem eq_of_map_toNat_eq {first second : List UInt8}
    (hdigits : first.map UInt8.toNat = second.map UInt8.toNat) : first = second :=
  List.map_injective_iff.mpr (fun _ _ => UInt8.toNat_inj.mp) hdigits

theorem toNat_or_shiftLeft {byte : UInt8} {rest : UInt64} (hrest : rest.toNat < 256 ^ 7) :
    (byte.toUInt64 ||| (rest <<< 8)).toNat = byte.toNat + 256 * rest.toNat := by
  have hbyte : byte.toNat < 2 ^ 8 := byte.toNat_lt
  have hshifted : (rest <<< 8).toNat = 2 ^ 8 * rest.toNat := by
    have hamount : (8 : UInt64).toNat % 64 = 8 := by decide
    rw [UInt64.toNat_shiftLeft, hamount, Nat.shiftLeft_eq, Nat.mod_eq_of_lt (by omega),
      Nat.mul_comm]
  rw [UInt64.toNat_or, UInt8.toNat_toUInt64, hshifted, Nat.or_comm,
    ← Nat.two_pow_add_eq_or_of_lt hbyte, Nat.add_comm]

theorem toNat_littleEndian {bytes : List UInt8} (hlength : bytes.length ≤ 8) :
    (littleEndian bytes).toNat = Nat.ofDigits 256 (bytes.map UInt8.toNat) := by
  induction bytes with
  | nil => rfl
  | cons byte rest ih =>
      have hrest : rest.length ≤ 7 := Nat.le_of_succ_le_succ hlength
      have hvalue := ih (by omega)
      have hbound : (littleEndian rest).toNat < 256 ^ 7 := by
        calc (littleEndian rest).toNat
            = Nat.ofDigits 256 (rest.map UInt8.toNat) := hvalue
          _ < 256 ^ (rest.map UInt8.toNat).length :=
              Nat.ofDigits_lt_base_pow_length (by decide) (digit_lt rest)
          _ ≤ 256 ^ 7 := Nat.pow_le_pow_right (by decide) (by simpa using hrest)
      rw [List.map_cons, Nat.ofDigits_cons, ← hvalue]
      exact toNat_or_shiftLeft hbound

theorem eq_of_littleEndian_eq {first second : List UInt8} (hlength : first.length = second.length)
    (hshort : first.length ≤ 8) (hword : littleEndian first = littleEndian second) :
    first = second := by
  have hdigits : Nat.ofDigits 256 (first.map UInt8.toNat) =
      Nat.ofDigits 256 (second.map UInt8.toNat) := by
    rw [← toNat_littleEndian hshort, ← toNat_littleEndian (hlength ▸ hshort), hword]
  apply eq_of_map_toNat_eq
  exact Nat.ofDigits_inj_of_len_eq (by decide) (by simpa using hlength) (digit_lt first)
    (digit_lt second) hdigits

/-- At most one block of bytes, none of them zero. -/
structure Brief (bytes : List UInt8) : Prop where
  length_le : bytes.length ≤ 8
  zero_not_mem : 0 ∉ bytes

theorem Brief.digits_littleEndian {bytes : List UInt8} (hbrief : Brief bytes) :
    Nat.digits 256 (littleEndian bytes).toNat = bytes.map UInt8.toNat := by
  rw [toNat_littleEndian hbrief.length_le]
  apply Nat.digits_ofDigits 256 (by decide) _ (digit_lt bytes)
  intro hnonempty hzero
  -- The most significant digit is the last byte.
  obtain ⟨byte, hmember, hbyte⟩ := List.mem_map.mp (hzero ▸ List.getLast_mem hnonempty)
  have hbyteZero : byte = 0 := UInt8.toNat_inj.mp hbyte
  exact hbrief.zero_not_mem (hbyteZero ▸ hmember)

theorem Brief.eq_of_littleEndian_eq {first second : List UInt8} (hfirst : Brief first)
    (hsecond : Brief second) (hword : littleEndian first = littleEndian second) :
    first = second := by
  apply eq_of_map_toNat_eq
  rw [← hfirst.digits_littleEndian, ← hsecond.digits_littleEndian, hword]

/-! ## Cutting bytes into blocks -/

theorem blocks_eq {bytes : List UInt8} (hnonempty : bytes ≠ []) :
    blocks bytes = littleEndian (bytes.take 8) :: blocks (bytes.drop 8) := by
  -- One to seven bytes are a short block, and from eight on the first eight are cut off.
  rcases bytes with
    _ | ⟨b0, _ | ⟨b1, _ | ⟨b2, _ | ⟨b3, _ | ⟨b4, _ | ⟨b5, _ | ⟨b6, _ | ⟨b7, rest⟩⟩⟩⟩⟩⟩⟩⟩
  · contradiction
  all_goals rfl

/-- Bytes of one length that differ, but only inside the block `index`.  The last block may be
shorter than the others. -/
structure DifferWithin (index : ℕ) (first second : List UInt8) : Prop where
  length_eq : first.length = second.length
  ne : first ≠ second
  agree : ∀ position < first.length, position / 8 ≠ index → first[position]? = second[position]?

namespace DifferWithin

variable {index : ℕ} {first second : List UInt8}

theorem getElem?_eq (hdiffer : DifferWithin index first second) {position : ℕ}
    (hposition : position / 8 ≠ index) : first[position]? = second[position]? := by
  by_cases hwithin : position < first.length
  · exact hdiffer.agree position hwithin hposition
  · have hbeyond : second.length ≤ position := hdiffer.length_eq ▸ not_lt.mp hwithin
    rw [List.getElem?_eq_none (not_lt.mp hwithin), List.getElem?_eq_none hbeyond]

theorem ne_nil (hdiffer : DifferWithin index first second) : first ≠ [] ∧ second ≠ [] := by
  have hlength := hdiffer.length_eq
  refine ⟨?_, ?_⟩
  · rintro rfl
    exact hdiffer.ne (List.length_eq_zero_iff.mp hlength.symm).symm
  · rintro rfl
    exact hdiffer.ne (List.length_eq_zero_iff.mp hlength)

theorem drop_ne (hdiffer : DifferWithin index first second) (htake : first.take 8 = second.take 8) :
    first.drop 8 ≠ second.drop 8 := by
  intro hdrop
  apply hdiffer.ne
  rw [← List.take_append_drop 8 first, htake, hdrop, List.take_append_drop]

theorem drop_eq (hdiffer : DifferWithin 0 first second) : first.drop 8 = second.drop 8 := by
  apply List.ext_getElem?
  intro position
  rw [List.getElem?_drop, List.getElem?_drop]
  exact hdiffer.getElem?_eq (by omega)

theorem take_eq (hdiffer : DifferWithin (index + 1) first second) :
    first.take 8 = second.take 8 := by
  apply List.ext_getElem?
  intro position
  rw [List.getElem?_take, List.getElem?_take]
  split_ifs with hposition
  · exact hdiffer.getElem?_eq (by omega)
  · rfl

theorem drop (hdiffer : DifferWithin (index + 1) first second) :
    DifferWithin index (first.drop 8) (second.drop 8) where
  length_eq := by rw [List.length_drop, List.length_drop, hdiffer.length_eq]
  ne := hdiffer.drop_ne hdiffer.take_eq
  agree position _ hposition := by
    rw [List.getElem?_drop, List.getElem?_drop]
    exact hdiffer.getElem?_eq (by omega)

theorem littleEndian_take_ne (hdiffer : DifferWithin 0 first second) :
    littleEndian (first.take 8) ≠ littleEndian (second.take 8) := by
  intro hword
  have htake : first.take 8 = second.take 8 :=
    eq_of_littleEndian_eq (by rw [List.length_take, List.length_take, hdiffer.length_eq])
      (List.length_take_le 8 first) hword
  exact hdiffer.drop_ne htake hdiffer.drop_eq

theorem exists_blocks (hdiffer : DifferWithin index first second) :
    ∃ front x y back, blocks first = front ++ x :: back ∧ blocks second = front ++ y :: back ∧
      x ≠ y := by
  -- The blocks before the one that differs are cut off one by one.
  induction index generalizing first second with
  | zero =>
      refine ⟨[], _, _, blocks (first.drop 8), blocks_eq hdiffer.ne_nil.1, ?_,
        hdiffer.littleEndian_take_ne⟩
      rw [hdiffer.drop_eq]
      exact blocks_eq hdiffer.ne_nil.2
  | succ index ih =>
      obtain ⟨front, x, y, back, hfirst, hsecond, hdifferent⟩ := ih hdiffer.drop
      refine ⟨littleEndian (first.take 8) :: front, x, y, back, ?_, ?_, hdifferent⟩
      · rw [blocks_eq hdiffer.ne_nil.1, hfirst, List.cons_append]
      · rw [blocks_eq hdiffer.ne_nil.2, hsecond, hdiffer.take_eq, List.cons_append]

theorem ofBytes_ne (hdiffer : DifferWithin index first second) (seed : UInt64) :
    ofBytes seed first ≠ ofBytes seed second := by
  obtain ⟨front, x, y, back, hfirst, hsecond, hdifferent⟩ := hdiffer.exists_blocks
  intro hsame
  unfold ofBytes at hsame
  rw [hfirst, hsecond] at hsame
  exact hdifferent (eq_of_foldl_absorb_append hsame)

end DifferWithin

/-! ## Brief names -/

theorem ofBytes_zero_eq {bytes : List UInt8} (hlength : bytes.length ≤ 8) :
    ofBytes 0 bytes = scramble (littleEndian bytes) := by
  by_cases hempty : bytes = []
  · -- No bytes at all are like a block of zeros: scrambling keeps the word zero.
    subst hempty
    decide
  · unfold ofBytes
    rw [blocks_eq hempty, List.take_of_length_le hlength, List.drop_of_length_le hlength]
    exact congrArg scramble UInt64.zero_xor

theorem Brief.eq_of_ofBytes_eq {first second : List UInt8} (hfirst : Brief first)
    (hsecond : Brief second) (hsame : ofBytes 0 first = ofBytes 0 second) : first = second := by
  rw [ofBytes_zero_eq hfirst.length_le, ofBytes_zero_eq hsecond.length_le] at hsame
  exact hfirst.eq_of_littleEndian_eq hsecond (scramble_injective hsame)

-- A zero byte may go unnoticed.
example : ofBytes 0 [0] = ofBytes 0 [] := by decide

theorem Brief.ofBytes_ne_zero {bytes : List UInt8} (hbrief : Brief bytes)
    (hnonempty : bytes ≠ []) : ofBytes 0 bytes ≠ 0 := by
  have hnil : Brief [] := ⟨by decide, by decide⟩
  intro hzero
  exact hnonempty (hbrief.eq_of_ofBytes_eq hnil hzero)

end Fingerprint

/-! ## Texts -/

namespace Text

theorem toByteArray_bytes (text : String) : (bytes text).toByteArray = text.toByteArray := by
  conv_rhs => rw [← @String.ofList_toList text, String.toByteArray_ofList]
  rfl

theorem bytes_injective : Function.Injective bytes := by
  intro first second hbytes
  apply String.toByteArray_inj.mp
  rw [← toByteArray_bytes first, ← toByteArray_bytes second, hbytes]

end Text

open Fingerprint

/-- Fingerprints tell apart bytes that differ inside one block, whatever the seed.  They tell apart
all names of at most eight bytes without zeros, and only the empty one of these has the
fingerprint zero. -/
theorem fingerprint_separates_one_block :
    (∀ (seed : UInt64) (index : ℕ) (first second : List UInt8),
        DifferWithin index first second → ofBytes seed first ≠ ofBytes seed second) ∧
      (∀ first second : List UInt8, Brief first → Brief second → first ≠ second →
        ofBytes 0 first ≠ ofBytes 0 second) ∧
      (∀ bytes : List UInt8, Brief bytes → bytes ≠ [] → ofBytes 0 bytes ≠ 0) ∧
      (∀ first second : String, Brief (Text.bytes first) → Brief (Text.bytes second) →
        first ≠ second → ofText 0 first ≠ ofText 0 second) ∧
      (∀ name : String, Brief (Text.bytes name) → name ≠ "" → ofText 0 name ≠ 0) := by
  refine ⟨?_, ?_, ?_, ?_, ?_⟩
  · intro seed index first second hdiffer
    exact hdiffer.ofBytes_ne seed
  · intro first second hfirst hsecond hne hsame
    exact hne (hfirst.eq_of_ofBytes_eq hsecond hsame)
  · intro bytes hbrief hnonempty
    exact hbrief.ofBytes_ne_zero hnonempty
  · intro first second hfirst hsecond hne hsame
    exact hne (Text.bytes_injective (hfirst.eq_of_ofBytes_eq hsecond hsame))
  · intro name hbrief hnonempty
    exact hbrief.ofBytes_ne_zero fun hempty => hnonempty (Text.bytes_injective hempty)

/-- The first two texts differ inside a whole block, the next two in the last one of three bytes.
Of the names, one continues the other. -/
theorem fingerprint_separates_one_block_returns :
    DifferWithin 1 (Text.bytes "return vec3(lows);") (Text.bytes "return vec3(high);") ∧
      ofBytes 7 (Text.bytes "return vec3(lows);") ≠ ofBytes 7 (Text.bytes "return vec3(high);") ∧
      DifferWithin 2 (Text.bytes "return noise(p.xy);") (Text.bytes "return noise(p.xz);") ∧
      ofBytes 0 (Text.bytes "return noise(p.xy);") ≠ ofBytes 0 (Text.bytes "return noise(p.xz);") ∧
      Brief [255] ∧ Brief [255, 128] ∧ ofBytes 0 [255] ≠ ofBytes 0 [255, 128] ∧
      ofBytes 0 [255] ≠ 0 ∧
      Brief (Text.bytes "mix") ∧ Brief (Text.bytes "mixture") ∧
      ofText 0 "mix" ≠ ofText 0 "mixture" ∧ ofText 0 "mix" ≠ 0 := by
  obtain ⟨hblock, hnames, hzero, htexts, htextZero⟩ := fingerprint_separates_one_block
  have hwhole : DifferWithin 1 (Text.bytes "return vec3(lows);")
      (Text.bytes "return vec3(high);") := ⟨by decide, by decide, by decide⟩
  have hlast : DifferWithin 2 (Text.bytes "return noise(p.xy);")
      (Text.bytes "return noise(p.xz);") := ⟨by decide, by decide, by decide⟩
  have hbyte : Brief [255] := ⟨by decide, by decide⟩
  have hbytes : Brief [255, 128] := ⟨by decide, by decide⟩
  have hmix : Brief (Text.bytes "mix") := ⟨by decide, by decide⟩
  have hmixture : Brief (Text.bytes "mixture") := ⟨by decide, by decide⟩
  exact ⟨hwhole, hblock 7 1 _ _ hwhole, hlast, hblock 0 2 _ _ hlast, hbyte, hbytes,
    hnames _ _ hbyte hbytes (by decide), hzero _ hbyte (by decide), hmix, hmixture,
    htexts _ _ hmix hmixture (by decide), htextZero _ hmix (by decide)⟩

end NoiseShader
