import Recast.Proofs.Outcome
import Recast.Text.Utf8

/-! # Reading UTF-8 back

Decoding gives back every text that was encoded. A character is taken up octet by octet,
and each first octet admits just the second ones that its characters have.
-/

namespace Recast.Utf8

/-! ## One octet -/

theorem toNat_ofNat {n : Nat} (small : n < 256) : (UInt8.ofNat n).toNat = n :=
  UInt8.toNat_ofNat_of_lt' small

theorem follow?_one : ∀ n < 0x80, follow? (UInt8.ofNat n) = some (0, 0x80, 0xBF) := by
  decide

theorem follow?_two : ∀ n < 32, 2 ≤ n → follow? (UInt8.ofNat (0xC0 + n)) = some (1, 0x80, 0xBF) := by
  decide

/-- After `E0` the over-long forms are left out, after `ED` the surrogates. -/
theorem follow?_three : ∀ n < 16, follow? (UInt8.ofNat (0xE0 + n)) =
    some (2, if n = 0 then 0xA0 else 0x80, if n = 13 then 0x9F else 0xBF) := by
  decide

/-- After `F0` the over-long forms are left out, after `F4` what no character has. -/
theorem follow?_four : ∀ n < 5, follow? (UInt8.ofNat (0xF0 + n)) =
    some (3, if n = 0 then 0x90 else 0x80, if n = 4 then 0x8F else 0xBF) := by
  decide

section

variable {p : Prop} [Decidable p] {a b : UInt8} {n : Nat}

theorem toNat_ite_le (special : p → a.toNat ≤ n) (usual : b.toNat ≤ n) :
    (if p then a else b).toNat ≤ n := by
  split
  · rename_i h
    exact special h
  · exact usual

theorem le_toNat_ite (special : p → n ≤ a.toNat) (usual : n ≤ b.toNat) :
    n ≤ (if p then a else b).toNat := by
  split
  · rename_i h
    exact special h
  · exact usual

end

attribute [local simp] decodeFrom

section

variable {position owed value start n : Nat} {low high lead : UInt8} {rest : Bytes}

theorem decodeFrom_lead {b : UInt8} {count : Nat} {low' high' : UInt8}
    (known : follow? b = some (count + 1, low', high')) :
    decodeFrom position 0 value low high lead start (b :: rest) =
      decodeFrom (position + 1) (count + 1) (leadBits (count + 1) b) low' high' b position rest := by
  simp [known]

theorem within (least : low.toNat ≤ n) (most : n ≤ high.toNat) :
    (low ≤ UInt8.ofNat n && UInt8.ofNat n ≤ high) = true := by
  have small : n < 256 := Nat.lt_of_le_of_lt most high.toNat_lt
  simp only [UInt8.le_iff_toNat_le, toNat_ofNat small, least, most, decide_true, Bool.and_self]

theorem decodeFrom_next (more : 2 ≤ owed) (least : low.toNat ≤ n) (most : n ≤ high.toNat) :
    decodeFrom position owed value low high lead start (UInt8.ofNat n :: rest) =
      decodeFrom (position + 1) (owed - 1) (value * 64 + (n - 0x80)) 0x80 0xBF lead start rest := by
  have small : n < 256 := Nat.lt_of_le_of_lt most high.toNat_lt
  rw [decodeFrom, if_neg (by omega), if_pos (within least most), if_neg (by omega),
    toNat_ofNat small]

end

/-! ## One character -/

/-- The octets decode to the text wherever they stand. -/
def Decodes (bytes : Bytes) (t : Text) : Prop :=
  ∀ position low high lead start, decodeFrom position 0 0 low high lead start bytes = .ok t

section

variable {position value start n : Nat} {low high lead : UInt8} {rest : Bytes} {t : Text}

theorem decodeFrom_last (decodes : Decodes rest t) (least : low.toNat ≤ n) (most : n ≤ high.toNat) :
    decodeFrom position 1 value low high lead start (UInt8.ofNat n :: rest) =
      .ok (Char.ofNat (value * 64 + (n - 0x80)) :: t) := by
  have small : n < 256 := Nat.lt_of_le_of_lt most high.toNat_lt
  rw [decodeFrom, if_neg (by decide), if_pos (within least most), if_pos rfl, toNat_ofNat small,
    decodes]
  rfl

theorem tail_least (m : Nat) : (0x80 : UInt8).toNat ≤ 0x80 + m := Nat.le_add_right 0x80 m

theorem tail_most (m : Nat) : 0x80 + m % 64 ≤ (0xBF : UInt8).toNat := by
  show 0x80 + m % 64 ≤ 0xBF
  omega

theorem decodes_one (decodes : Decodes rest t) (small : n < 0x80) :
    Decodes (UInt8.ofNat n :: rest) (Char.ofNat n :: t) := by
  intro position low high lead start
  rw [decodeFrom, if_pos rfl, follow?_one n small, toNat_ofNat (by omega)]
  simp only [decodes (position + 1), ok_bind, pure_eq_ok]

theorem decodes_two (decodes : Decodes rest t) (least : 0x80 ≤ n) (most : n < 0x800) :
    Decodes (UInt8.ofNat (0xC0 + n / 64) :: UInt8.ofNat (0x80 + n % 64) :: rest)
      (Char.ofNat n :: t) := by
  intro position low high lead start
  have bits : leadBits 1 (UInt8.ofNat (0xC0 + n / 64)) = n / 64 := by
    show (UInt8.ofNat (0xC0 + n / 64)).toNat - 0xC0 = _
    rw [toNat_ofNat (by omega), Nat.add_sub_cancel_left]
  have value : n / 64 * 64 + (0x80 + n % 64 - 0x80) = n := by
    omega
  rw [decodeFrom_lead (follow?_two (n / 64) (by omega) (by omega)), bits,
    decodeFrom_last decodes (tail_least _) (tail_most _), value]

theorem decodes_three (decodes : Decodes rest t) (least : 0x800 ≤ n) (most : n < 0x10000)
    (scalar : n < 0xD800 ∨ 0xDFFF < n) :
    Decodes (UInt8.ofNat (0xE0 + n / 4096) :: UInt8.ofNat (0x80 + n / 64 % 64)
      :: UInt8.ofNat (0x80 + n % 64) :: rest) (Char.ofNat n :: t) := by
  intro position low high lead start
  have bits : leadBits 2 (UInt8.ofNat (0xE0 + n / 4096)) = n / 4096 := by
    show (UInt8.ofNat (0xE0 + n / 4096)).toNat - 0xE0 = _
    rw [toNat_ofNat (by omega), Nat.add_sub_cancel_left]
  have overlong : n / 4096 = 0 → (0xA0 : UInt8).toNat ≤ 0x80 + n / 64 % 64 := by
    intro zero
    show 0xA0 ≤ _
    omega
  have surrogate : n / 4096 = 13 → 0x80 + n / 64 % 64 ≤ (0x9F : UInt8).toNat := by
    intro last
    show _ ≤ 0x9F
    omega
  have value : (n / 4096 * 64 + (0x80 + n / 64 % 64 - 0x80)) * 64 + (0x80 + n % 64 - 0x80) = n := by
    omega
  rw [decodeFrom_lead (follow?_three (n / 4096) (by omega)), bits,
    decodeFrom_next (Nat.le_refl 2) (toNat_ite_le overlong (tail_least _))
      (le_toNat_ite surrogate (tail_most _)),
    decodeFrom_last decodes (tail_least _) (tail_most _), value]

theorem decodes_four (decodes : Decodes rest t) (least : 0x10000 ≤ n) (most : n < 0x110000) :
    Decodes (UInt8.ofNat (0xF0 + n / 262144) :: UInt8.ofNat (0x80 + n / 4096 % 64)
      :: UInt8.ofNat (0x80 + n / 64 % 64) :: UInt8.ofNat (0x80 + n % 64) :: rest)
      (Char.ofNat n :: t) := by
  intro position low high lead start
  have bits : leadBits 3 (UInt8.ofNat (0xF0 + n / 262144)) = n / 262144 := by
    show (UInt8.ofNat (0xF0 + n / 262144)).toNat - 0xF0 = _
    rw [toNat_ofNat (by omega), Nat.add_sub_cancel_left]
  have overlong : n / 262144 = 0 → (0x90 : UInt8).toNat ≤ 0x80 + n / 4096 % 64 := by
    intro zero
    show 0x90 ≤ _
    omega
  have beyond : n / 262144 = 4 → 0x80 + n / 4096 % 64 ≤ (0x8F : UInt8).toNat := by
    intro last
    show _ ≤ 0x8F
    omega
  have value : ((n / 262144 * 64 + (0x80 + n / 4096 % 64 - 0x80)) * 64 + (0x80 + n / 64 % 64 - 0x80)) * 64 +
      (0x80 + n % 64 - 0x80) = n := by
    omega
  rw [decodeFrom_lead (follow?_four (n / 262144) (by omega)), bits,
    decodeFrom_next (by decide) (toNat_ite_le overlong (tail_least _))
      (le_toNat_ite beyond (tail_most _)),
    decodeFrom_next (Nat.le_refl 2) (tail_least _) (tail_most _),
    decodeFrom_last decodes (tail_least _) (tail_most _), value]

/-- A character in front of octets that decode. -/
theorem decodes_encodeChar_append (c : Char) (decodes : Decodes rest t) :
    Decodes (encodeChar c ++ rest) (c :: t) := by
  have valid : c.toNat < 0xD800 ∨ 0xDFFF < c.toNat ∧ c.toNat < 0x110000 := c.valid
  have same : Char.ofNat c.toNat = c := Char.ofNat_toNat c
  simp only [encodeChar]
  generalize c.toNat = n at valid same
  subst same
  split
  · rename_i one
    exact decodes_one decodes one
  · split
    · rename_i least two
      exact decodes_two decodes (by omega) two
    · split
      · rename_i least three
        exact decodes_three decodes (by omega) three (by omega)
      · rename_i least
        exact decodes_four decodes (by omega) (by omega)

end

/-! ## Texts -/

theorem decodes_encode (t : Text) : Decodes (encode t) t := by
  induction t with
  | nil => exact fun _ _ _ _ _ => rfl
  | cons c t ih => exact decodes_encodeChar_append c ih

theorem decode_encode (t : Text) : decode (encode t) = .ok t := decodes_encode t 0 0x80 0xBF 0 0

theorem encodeChar_of_ascii {c : Char} (ascii : c.toNat < 0x80) :
    encodeChar c = [UInt8.ofNat c.toNat] :=
  if_pos ascii

theorem encodeChar_ne_nil (c : Char) : encodeChar c ≠ [] := by
  simp only [encodeChar]
  split <;> (try split) <;> (try split) <;> exact List.cons_ne_nil _ _

end Recast.Utf8
