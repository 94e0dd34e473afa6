import ReorgSync.Filter.Fingerprint
import ReorgSync.Proofs.Filter
import ReorgSync.Proofs.Json.Text

namespace ReorgSync

/-! Two filters have one key exactly if they select the same logs, as long as their
digests tell their normal forms apart. -/

/-! ## Bytes and digits -/

namespace Digest

theorem toList_loop (bytes : ByteArray) (place : Nat) (found : List UInt8) :
    ByteArray.toList.loop bytes place found = found.reverse ++ bytes.data.toList.drop place := by
  induction place, found using ByteArray.toList.loop.induct bytes with
  | case1 place found within induction =>
      have inside : place < bytes.data.toList.length := by simpa using within
      have isByte : bytes.get! place = bytes.data.toList[place] := by
        rw [Array.getElem_toList]
        exact getElem!_pos bytes.data place (by simpa using within)
      rw [ByteArray.toList.loop, if_pos within, induction, List.drop_eq_getElem_cons inside, isByte]
      simp
  | case2 place found outside =>
      have ends : bytes.data.toList.length ≤ place := by simpa using outside
      rw [ByteArray.toList.loop, if_neg outside, List.drop_eq_nil_of_le ends, List.append_nil]

theorem toUTF8_injective {left right : String} (same : left.toUTF8.toList = right.toUTF8.toList) :
    left = right := by
  have whole (bytes : ByteArray) : bytes.toList = bytes.data.toList := by
    rw [ByteArray.toList, toList_loop]
    rfl
  rw [whole, whole] at same
  exact String.toByteArray_inj.mp (ByteArray.ext (Array.toList_inj.mp same))

theorem digitChar_injective {left right : Nat} (leftDigit : left < 16) (rightDigit : right < 16)
    (same : Nat.digitChar left = Nat.digitChar right) : left = right := by
  have all : ∀ left < 16, ∀ right < 16,
      Nat.digitChar left = Nat.digitChar right → left = right := by
    decide
  exact all left leftDigit right rightDigit same

theorem hex_injective {left right : List UInt8} (same : hex left = hex right) : left = right := by
  have digits := String.ofList_injective same
  clear same
  induction left generalizing right with
  | nil =>
      cases right with
      | nil => rfl
      | cons byte rest => cases digits
  | cons byte rest induction =>
      cases right with
      | nil => cases digits
      | cons other others =>
          simp only [List.flatMap_cons, List.cons_append, List.nil_append,
            List.cons.injEq] at digits
          have byteSize := byte.toNat_lt
          have otherSize := other.toNat_lt
          have high := digitChar_injective (by omega) (by omega) digits.1
          have low := digitChar_injective (by omega) (by omega) digits.2.1
          have sameByte : byte = other := UInt8.toNat_inj.mp (by omega)
          rw [sameByte, induction digits.2.2]

end Digest

namespace Filter

/-! ## Texts of normal forms -/

theorem fitsIn_strings (levels : Nat) (values : List String) :
    Json.FitsIn (levels + 1) (.strings values) := by
  intro item isItem
  rcases List.mem_map.mp isItem with ⟨value, -, rfl⟩
  cases levels <;> trivial

theorem fitsIn_encode (filter : Filter) (levels : Nat) :
    Json.FitsIn (levels + 3) filter.encode := by
  intro field isField
  rcases List.mem_cons.mp isField with rfl | isField
  · exact fitsIn_strings (levels + 1) _
  · rw [List.mem_singleton.mp isField]
    intro item isItem
    rcases List.mem_map.mp isItem with ⟨values, -, rfl⟩
    exact fitsIn_strings levels values

theorem strings_injective : Function.Injective Json.strings := by
  intro left right same
  exact List.map_injective_iff.mpr (fun _ _ => Json.string.inj) (Json.array.inj same)

theorem encode_injective {left right : Filter} (same : left.encode = right.encode) :
    left = right := by
  rcases left with ⟨leftAddresses, leftTopics⟩
  rcases right with ⟨rightAddresses, rightTopics⟩
  simp only [encode, Json.object.injEq, List.cons.injEq, Prod.mk.injEq, true_and, and_true,
    Json.array.injEq] at same
  rw [strings_injective same.1, List.map_injective_iff.mpr strings_injective same.2]

/-- The text of a normal form says what the normal form is. -/
theorem canonicalText_eq_iff {left right : Filter} :
    left.canonicalText = right.canonicalText ↔ left.normalized = right.normalized := by
  constructor
  · intro same
    exact encode_injective (Json.print_injective (fitsIn_encode _ 124) (fitsIn_encode _ 124) same)
  · intro same
    rw [canonicalText, same, canonicalText]

/-! ## Keys -/

/-- The bytes that a filter's key is a digest of. -/
def canonicalBytes (filter : Filter) : List UInt8 :=
  filter.canonicalText.toUTF8.toList

/-- Keys are the same where normal forms are, if the digest tells their texts apart. -/
theorem fingerprintWith_eq_iff {digest : List UInt8 → List UInt8} {left right : Filter}
    (apart : digest left.canonicalBytes = digest right.canonicalBytes →
      left.canonicalBytes = right.canonicalBytes) :
    left.fingerprintWith digest = right.fingerprintWith digest ↔
      left.normalized = right.normalized := by
  rw [← canonicalText_eq_iff]
  constructor
  · intro same
    exact Digest.toUTF8_injective (apart (Digest.hex_injective same))
  · intro same
    rw [fingerprintWith, same, fingerprintWith]

/-- A filter stands for the logs that it selects: two filters have one normal form exactly
if they select the same logs, and then alone they have one key. Here the digest has to tell
the texts of the two normal forms apart. -/
theorem shared_iff_selects_same (digest : List UInt8 → List UInt8) (left right : Filter) :
    (left.normalized = right.normalized ↔ ∀ log, left.matchesLog log = right.matchesLog log) ∧
    ((digest left.canonicalBytes = digest right.canonicalBytes →
        left.canonicalBytes = right.canonicalBytes) →
      (left.fingerprintWith digest = right.fingerprintWith digest ↔
        ∀ log, left.matchesLog log = right.matchesLog log)) := by
  refine ⟨normalized_eq_iff, fun apart => ?_⟩
  have key_iff : left.fingerprintWith digest = right.fingerprintWith digest ↔
      left.canonicalText = right.canonicalText := by
    constructor
    · intro same
      exact Digest.toUTF8_injective (apart (Digest.hex_injective same))
    · intro same
      rw [fingerprintWith, same, fingerprintWith]
  rw [key_iff, canonicalText_eq_iff, normalized_eq_iff]

/-- Case, order, repeats and trailing positions do not count, but any value does. -/
theorem shared_iff_selects_same_for_two :
    let mixed : Filter := ((forAddress "0xAbC").withAddress "0x123").withTopic 0 "0xDEAD"
    let plain : Filter := ⟨["0x123", "0xabc", "0x123"], [["0xdead"], []]⟩
    let other : Filter := forAddress "0xabc"
    (mixed.fingerprint = plain.fingerprint ∧
      ∀ log, mixed.matchesLog log = plain.matchesLog log) ∧
    mixed.fingerprint ≠ other.fingerprint ∧
      ¬ ∀ log, mixed.matchesLog log = other.matchesLog log := by
  intro mixed plain other
  have one := shared_iff_selects_same Digest.sha256 mixed plain
  have two := shared_iff_selects_same Digest.sha256 mixed other
  have same := one.1.mp (by decide)
  have differs := mt two.1.mpr (by decide)
  have together : mixed.canonicalBytes = plain.canonicalBytes := by decide +kernel
  have apart : Digest.sha256 mixed.canonicalBytes ≠ Digest.sha256 other.canonicalBytes := by
    decide +kernel
  exact ⟨⟨(one.2 fun _ => together).mpr same, same⟩,
    fun equal => differs ((two.2 fun collision => absurd collision apart).mp equal), differs⟩

end Filter

end ReorgSync
