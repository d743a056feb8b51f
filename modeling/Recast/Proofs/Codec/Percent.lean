import Recast.Codec.Percent
import Recast.Proofs.Codec.Utf8
import Recast.Proofs.Text.Blank

/-! # Reading percent-encoding back

An encoded text is ASCII and each `%` in it starts an escape, so it is decoded as one run
of octets, which are those of the text.
-/

namespace Recast.Percent

open Json

theorem hexValue?_hexDigit : ∀ n < 16, hexValue? (hexDigit n) = some n := by decide

theorem unreserved_hexDigit : ∀ n < 16, unreserved (hexDigit n) = true := by decide

section

variable {c : Char} (plain : unreserved c = true)

include plain

theorem alphanum_or_mark : c.isAlphanum = true ∨ c ∈ "_.-~!*'()".toList := by
  simpa only [unreserved, Bool.or_eq_true, List.contains_iff_mem] using plain

theorem ascii_of_unreserved : c.toNat < 0x80 := by
  rcases alphanum_or_mark plain with letter | mark
  · exact Text.toNat_lt_of_isAlphanum letter
  · have all : ∀ d ∈ "_.-~!*'()".toList, d.toNat < 0x80 := by decide
    exact all c mark

theorem solid_of_unreserved : Text.isBlank c = false := by
  rcases alphanum_or_mark plain with letter | mark
  · exact Text.isBlank_of_isWord (Text.isWord_of_isAlphanum letter)
  · have all : ∀ d ∈ "_.-~!*'()".toList, Text.isBlank d = false := by decide
    exact all c mark

theorem ne_percent_of_unreserved : c ≠ '%' := by
  rintro rfl
  revert plain
  decide

end

/-! ## Forms that can be decoded -/

theorem malformedFrom?_cons {c : Char} (plain : c ≠ '%') (position : Nat) (rest : Text) :
    malformedFrom? position (c :: rest) = malformedFrom? (position + 1) rest := by
  rw [malformedFrom?]
  exact fun same => plain same

theorem octets_cons {c : Char} (plain : c ≠ '%') (rest : Text) :
    octets (c :: rest) = UInt8.ofNat c.toNat :: octets rest := by
  rw [octets]
  exact fun _ _ _ same => absurd same plain

/-- The text is a form of the octets. -/
structure Spelled (t : Text) (bytes : Bytes) : Prop where
  ascii : ∀ c ∈ t, isAscii c = true
  formed : ∀ position, malformedFrom? position t = none
  octets : octets t = bytes

section

variable {t : Text} {bytes : Bytes} (spelled : Spelled t bytes)

theorem spelled_nil : Spelled [] [] := ⟨nofun, fun _ => rfl, rfl⟩

include spelled

theorem Spelled.plain {c : Char} (plain : unreserved c = true) :
    Spelled (c :: t) (UInt8.ofNat c.toNat :: bytes) := by
  have other := ne_percent_of_unreserved plain
  constructor
  · intro d member
    rcases List.mem_cons.mp member with rfl | later
    · exact decide_eq_true (ascii_of_unreserved plain)
    · exact spelled.ascii d later
  · intro position
    rw [malformedFrom?_cons other, spelled.formed]
  · rw [octets_cons other, spelled.octets]

theorem Spelled.escape (b : UInt8) : Spelled (Percent.escape b ++ t) (b :: bytes) := by
  have small := b.toNat_lt
  have high : b.toNat / 16 < 16 := by omega
  have low : b.toNat % 16 < 16 := by omega
  have left := unreserved_hexDigit _ high
  have right := unreserved_hexDigit _ low
  have pair := (spelled.plain right).plain left
  constructor
  · intro d member
    rcases List.mem_cons.mp member with rfl | later
    · rfl
    · exact pair.ascii d later
  · intro position
    show malformedFrom? position ('%' :: _ :: _ :: t) = none
    rw [malformedFrom?, hexValue?_hexDigit _ high, hexValue?_hexDigit _ low]
    exact pair.formed (position + 1)
  · show Percent.octets ('%' :: _ :: _ :: t) = _
    have whole : UInt8.ofNat (b.toNat / 16 * 16 + b.toNat % 16) = b := by
      rw [Nat.div_add_mod', UInt8.ofNat_toNat]
    rw [Percent.octets, hexValue?_hexDigit _ high, hexValue?_hexDigit _ low, spelled.octets]
    exact congrArg (· :: bytes) whole

theorem Spelled.escapes (new : Bytes) : Spelled (new.flatMap Percent.escape ++ t) (new ++ bytes) := by
  induction new with
  | nil => exact spelled
  | cons b new ih =>
      rw [List.flatMap_cons, List.append_assoc]
      exact ih.escape b

theorem Spelled.encodeChar (c : Char) :
    Spelled (Percent.encodeChar c ++ t) (Utf8.encodeChar c ++ bytes) := by
  rw [Percent.encodeChar]
  split
  · rename_i plain
    rw [Utf8.encodeChar_of_ascii (ascii_of_unreserved plain)]
    exact spelled.plain plain
  · exact spelled.escapes (Utf8.encodeChar c)

end

theorem spelled_encode (t : Text) : Spelled (encode t) (Utf8.encode t) := by
  induction t with
  | nil => exact spelled_nil
  | cons c t ih => exact ih.encodeChar c

/-! ## Decoding -/

theorem decodeRuns_of_ascii {t : Text} (ascii : ∀ c ∈ t, isAscii c = true) (run : Text) :
    decodeRuns run t = (Utf8.decode (octets (run.reverse ++ t))).mapError .octets := by
  induction t generalizing run with
  | nil => rw [decodeRuns, List.append_nil]
  | cons c t ih =>
      rw [List.forall_mem_cons] at ascii
      rw [decodeRuns, if_pos ascii.1, ih ascii.2, List.reverse_cons, List.append_assoc]
      rfl

theorem decode_of_spelled {t : Text} {bytes : Bytes} (spelled : Spelled t bytes) :
    decode t = (Utf8.decode bytes).mapError .octets := by
  rw [decode, spelled.formed, decodeRuns_of_ascii spelled.ascii, List.reverse_nil, List.nil_append,
    spelled.octets]

theorem decode_encode (t : Text) : decode (encode t) = .ok t := by
  rw [decode_of_spelled (spelled_encode t), Utf8.decode_encode]
  rfl

theorem solid_of_mem_encodeChar {c d : Char} (member : d ∈ encodeChar c) :
    Text.isBlank d = false := by
  rw [encodeChar] at member
  split at member
  · rename_i plain
    rw [List.mem_singleton.mp member]
    exact solid_of_unreserved plain
  · obtain ⟨b, -, member⟩ := List.mem_flatMap.mp member
    have small := b.toNat_lt
    simp only [escape, List.mem_cons, List.not_mem_nil, or_false] at member
    rcases member with rfl | rfl | rfl
    · rfl
    · exact solid_of_unreserved (unreserved_hexDigit _ (by omega))
    · exact solid_of_unreserved (unreserved_hexDigit _ (by omega))

theorem encodeChar_ne_nil (c : Char) : encodeChar c ≠ [] := by
  rw [encodeChar]
  split
  · exact List.cons_ne_nil _ _
  · intro none
    cases h : Utf8.encodeChar c with
    | nil => exact Utf8.encodeChar_ne_nil c h
    | cons b bytes =>
        rw [h] at none
        cases none

/-- White space is written as escapes, so an encoded text is not blank. -/
theorem blank_encode {t : Text} (some : t ≠ []) : Text.blank (encode t) = false := by
  cases t with
  | nil => exact absurd rfl some
  | cons c t =>
      obtain ⟨d, member⟩ := List.exists_mem_of_ne_nil _ (encodeChar_ne_nil c)
      rw [Text.blank, List.all_eq_false]
      exact ⟨d, List.mem_append_left _ member, by simp [solid_of_mem_encodeChar member]⟩

end Recast.Percent
