import Recast.Codec.Base64
import Recast.Proofs.Codec.Utf8
import Recast.Proofs.Text.Blank

/-! # Reading Base64 back

Four letters are put together to the three octets that they were made of, and padding ends
the last group where its octets do. A Base64 form needs no forgiveness: it has no white
space and lacks no padding.
-/

namespace Recast.Base64

attribute [local simp] encodeBytes decodeFrom

/-! ## Letters -/

theorem value?_letter : ∀ n < 64, value? (letter n) = some n := by decide

theorem letter_ne_equals : ∀ n < 64, letter n ≠ '=' := by decide

def IsSign (c : Char) : Prop := c = '=' ∨ ∃ n < 64, c = letter n

theorem IsSign.ascii {c : Char} (sign : IsSign c) : c.toNat < 0x80 := by
  have letters : ∀ n < 64, (letter n).toNat < 0x80 := by decide
  rcases sign with rfl | ⟨n, small, rfl⟩
  · decide
  · exact letters n small

theorem IsSign.solid {c : Char} (sign : IsSign c) : Text.isBlank c = false := by
  have letters : ∀ n < 64, Text.isBlank (letter n) = false := by decide
  rcases sign with rfl | ⟨n, small, rfl⟩
  · decide
  · exact letters n small

/-- The numbers of the four letters for three octets. -/
theorem parts_lt (a b c : UInt8) :
    a.toNat / 4 < 64 ∧ a.toNat % 4 * 16 + b.toNat / 16 < 64 ∧
      b.toNat % 16 * 4 + c.toNat / 64 < 64 ∧ c.toNat % 64 < 64 := by
  have := a.toNat_lt
  have := b.toNat_lt
  have := c.toNat_lt
  omega

theorem isSign_of_mem {bytes : Bytes} {c : Char} (member : c ∈ encodeBytes bytes) : IsSign c := by
  induction bytes using encodeBytes.induct with
  | case1 => cases member
  | case2 a =>
      have := parts_lt a 0 0
      simp only [encodeBytes, List.mem_cons, List.not_mem_nil, or_false] at member
      rcases member with rfl | rfl | rfl | rfl
      · exact .inr ⟨_, this.1, rfl⟩
      · exact .inr ⟨_, by omega, rfl⟩
      · exact .inl rfl
      · exact .inl rfl
  | case3 a b =>
      have := parts_lt a b 0
      simp only [encodeBytes, List.mem_cons, List.not_mem_nil, or_false] at member
      rcases member with rfl | rfl | rfl | rfl
      · exact .inr ⟨_, this.1, rfl⟩
      · exact .inr ⟨_, this.2.1, rfl⟩
      · exact .inr ⟨_, by omega, rfl⟩
      · exact .inl rfl
  | case4 a b c rest ih =>
      have := parts_lt a b c
      simp only [encodeBytes, List.mem_cons] at member
      rcases member with rfl | rfl | rfl | rfl | later
      · exact .inr ⟨_, this.1, rfl⟩
      · exact .inr ⟨_, this.2.1, rfl⟩
      · exact .inr ⟨_, this.2.2.1, rfl⟩
      · exact .inr ⟨_, this.2.2.2, rfl⟩
      · exact ih later

theorem length_encodeBytes_mod (bytes : Bytes) : (encodeBytes bytes).length % 4 = 0 := by
  induction bytes using encodeBytes.induct with
  | case1 | case2 | case3 => simp
  | case4 a b c rest ih =>
      simp only [encodeBytes, List.length_cons]
      omega

theorem head?_encodeBytes_ne (bytes : Bytes) : (encodeBytes bytes).head? ≠ some '=' := by
  have first (a : UInt8) : letter (a.toNat / 4) ≠ '=' := letter_ne_equals _ (parts_lt a 0 0).1
  cases bytes using encodeBytes.fun_cases <;> simp [first]

/-! ## Groups -/

/-- A letter gives its octet, if it completes one, and leaves the rest of its bits. -/
theorem decodeFrom_letter {s : State} {n : Nat} (small : n < 64) (open' : s.padded = false)
    (rest : Text) :
    decodeFrom s (letter n :: rest) =
      (decodeFrom
        { s with
          letters := s.letters + 1
          inGroup := (s.inGroup + 1) % 4
          left := (regroup s.inGroup s.left n).2
          padding := 0 } rest).map ((regroup s.inGroup s.left n).1 ++ ·) := by
  rw [decodeFrom, if_neg (letter_ne_equals n small), value?_letter n small]
  simp only [open', Bool.false_eq_true, if_false]
  cases decodeFrom _ rest <;> rfl

/-- Padding ends a text whose last group has two or three letters. -/
theorem decodeFrom_twoPads (letters left : Nat) :
    decodeFrom { letters, inGroup := 2, left } ['=', '='] = .ok [] := by
  simp

theorem decodeFrom_onePad (letters left : Nat) :
    decodeFrom { letters, inGroup := 3, left } ['='] = .ok [] := by
  simp

theorem ofNat_eq {n : Nat} {a : UInt8} (h : n = a.toNat) : UInt8.ofNat n = a := by
  rw [h, UInt8.ofNat_toNat]

/-- The bits of an octet that are parted between two letters, `after` being the part of the
second letter that belongs to the next octet. -/
theorem first_octet (a : UInt8) (after : Nat) (few : after < 16) :
    UInt8.ofNat (a.toNat / 4 * 4 + (a.toNat % 4 * 16 + after) / 16) = a :=
  ofNat_eq (by omega)

theorem second_octet (before : Nat) (b : UInt8) (after : Nat) (few : after < 4) :
    UInt8.ofNat ((before * 16 + b.toNat / 16) % 16 * 16 + (b.toNat % 16 * 4 + after) / 4) = b := by
  have := b.toNat_lt
  exact ofNat_eq (by omega)

theorem third_octet (before : Nat) (c : UInt8) :
    UInt8.ofNat ((before * 4 + c.toNat / 64) % 4 * 64 + c.toNat % 64) = c := by
  have := c.toNat_lt
  exact ofNat_eq (by omega)

/-- Between two groups the octets of the remaining ones are read. -/
theorem decodeFrom_encodeBytes (letters : Nat) (bytes : Bytes) :
    decodeFrom { letters } (encodeBytes bytes) = .ok bytes := by
  induction bytes using encodeBytes.induct generalizing letters with
  | case1 => rfl
  | case2 a =>
      have small := parts_lt a 0 0
      have first := first_octet a 0 (by decide)
      rw [Nat.add_zero] at first
      rw [encodeBytes, decodeFrom_letter small.1 rfl, decodeFrom_letter (by omega) rfl]
      simp only [regroup, Nat.reduceAdd, Nat.reduceMod, decodeFrom_twoPads, first]
      rfl
  | case3 a b =>
      have small := parts_lt a b 0
      have low : b.toNat / 16 < 16 := by have := b.toNat_lt; omega
      have second := second_octet (a.toNat % 4) b 0 (by decide)
      rw [Nat.add_zero] at second
      rw [encodeBytes, decodeFrom_letter small.1 rfl, decodeFrom_letter small.2.1 rfl,
        decodeFrom_letter (by omega) rfl]
      simp only [regroup, Nat.reduceAdd, Nat.reduceMod, decodeFrom_onePad, first_octet a _ low, second]
      rfl
  | case4 a b c rest ih =>
      have small := parts_lt a b c
      have low : b.toNat / 16 < 16 := by have := b.toNat_lt; omega
      have lower : c.toNat / 64 < 4 := by have := c.toNat_lt; omega
      rw [encodeBytes, decodeFrom_letter small.1 rfl, decodeFrom_letter small.2.1 rfl,
        decodeFrom_letter small.2.2.1 rfl, decodeFrom_letter small.2.2.2 rfl]
      simp only [regroup, Nat.reduceAdd, Nat.reduceMod, first_octet a _ low,
        second_octet (a.toNat % 4) b _ lower, third_octet (b.toNat % 16) c, ih]
      rfl

/-! ## Texts -/

theorem decodeBytes_encodeBytes (bytes : Bytes) : decodeBytes (encodeBytes bytes) = .ok bytes := by
  have ascii : (encodeBytes bytes).any (fun c => 0x80 ≤ c.toNat) = false := by
    rw [List.any_eq_false]
    intro c member
    have := (isSign_of_mem member).ascii
    simpa using this
  rw [decodeBytes, ascii, if_neg Bool.false_ne_true, if_neg (head?_encodeBytes_ne bytes)]
  exact decodeFrom_encodeBytes 0 bytes

theorem pad_encodeBytes (bytes : Bytes) : pad (encodeBytes bytes) = encodeBytes bytes := by
  rw [pad, length_encodeBytes_mod]
  exact List.append_nil _

theorem squeeze_encodeBytes (bytes : Bytes) :
    Text.squeeze (encodeBytes bytes) = encodeBytes bytes := by
  apply List.filter_eq_self.mpr
  intro c member
  rw [(isSign_of_mem member).solid]
  rfl

theorem decode_encode (t : Text) : decode (encode t) = .ok t := by
  rw [decode, encode, squeeze_encodeBytes, decodePadding, pad_encodeBytes, decodeBytes_encodeBytes]
  show (Utf8.decode (Utf8.encode t)).mapError Error.octets = _
  rw [Utf8.decode_encode]
  rfl

theorem encode_ne_nil {t : Text} (some : t ≠ []) : encode t ≠ [] := by
  have octets : Utf8.encode t ≠ [] := by
    cases t with
    | nil => exact absurd rfl some
    | cons c t => exact List.append_ne_nil_of_left_ne_nil (Utf8.encodeChar_ne_nil c) _
  rw [encode]
  cases h : Utf8.encode t using encodeBytes.fun_cases <;> simp_all [encodeBytes]

theorem blank_encode {t : Text} (some : t ≠ []) : Text.blank (encode t) = false := by
  obtain ⟨c, member⟩ := List.exists_mem_of_ne_nil _ (encode_ne_nil some)
  rw [Text.blank, List.all_eq_false]
  exact ⟨c, member, by simp [(isSign_of_mem member).solid]⟩

end Recast.Base64
