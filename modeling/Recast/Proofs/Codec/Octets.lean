import Recast.Proofs.Codec.Utf8

/-! # Octets that are UTF-8

Only what some text is encoded as is decoded, in the form that UTF-8 has in the library. A
character starts with an octet that no other character goes on with, so octets can be parted
at each character that is known to stand in them.
-/

namespace Recast.Utf8

/-! ## Characters -/

/-- A character has the octets that the library gives it. -/
theorem encodeChar_eq (c : Char) : encodeChar c = String.utf8EncodeChar c := by
  have valid : c.toNat < 0xD800 ∨ 0xDFFF < c.toNat ∧ c.toNat < 0x110000 := c.valid
  have code : c.val.toNat = c.toNat := rfl
  simp only [encodeChar, String.utf8EncodeChar, code]
  generalize c.toNat = n at valid
  by_cases one : n < 0x80
  · rw [if_pos one, if_pos (by omega)]
  by_cases two : n < 0x800
  · rw [if_neg one, if_pos two, if_neg (by omega), if_pos (by omega),
      Nat.mod_eq_of_lt (by omega : n / 64 < 32), Nat.add_comm 0xC0, Nat.add_comm 0x80]
  by_cases three : n < 0x10000
  · rw [if_neg one, if_neg two, if_pos three, if_neg (by omega), if_neg (by omega),
      if_pos (by omega), Nat.mod_eq_of_lt (by omega : n / 4096 < 16), Nat.add_comm 0xE0,
      Nat.add_comm 0x80, Nat.add_comm 0x80]
  · rw [if_neg one, if_neg two, if_neg three, if_neg (by omega), if_neg (by omega),
      if_neg (by omega), Nat.mod_eq_of_lt (by omega : n / 262144 < 8), Nat.add_comm 0xF0,
      Nat.add_comm 0x80, Nat.add_comm 0x80, Nat.add_comm 0x80]

theorem encode_eq (t : Text) : encode t = t.flatMap String.utf8EncodeChar :=
  congrArg (fun octets => t.flatMap octets) (funext encodeChar_eq)

theorem encode_cons (c : Char) (t : Text) : encode (c :: t) = encodeChar c ++ encode t :=
  List.flatMap_cons

theorem encode_append (s t : Text) : encode (s ++ t) = encode s ++ encode t :=
  List.flatMap_append

section

variable {n : Nat}

theorem toNat_char (valid : n.isValidChar) : (Char.ofNat n).toNat = n := by
  rw [Char.ofNat, dif_pos valid]
  rfl

theorem encodeChar_one (small : n < 0x80) : encodeChar (Char.ofNat n) = [UInt8.ofNat n] := by
  have code := toNat_char (.inl (by omega : n < 0xD800))
  rw [encodeChar_of_ascii (by omega), code]

theorem encodeChar_two (least : 0x80 ≤ n) (most : n < 0x800) :
    encodeChar (Char.ofNat n) = [UInt8.ofNat (0xC0 + n / 64), UInt8.ofNat (0x80 + n % 64)] := by
  have code := toNat_char (.inl (by omega : n < 0xD800))
  simp only [encodeChar, code]
  rw [if_neg (by omega), if_pos most]

theorem encodeChar_three (least : 0x800 ≤ n) (most : n < 0x10000)
    (scalar : n < 0xD800 ∨ 0xDFFF < n) :
    encodeChar (Char.ofNat n) = [UInt8.ofNat (0xE0 + n / 4096),
      UInt8.ofNat (0x80 + n / 64 % 64), UInt8.ofNat (0x80 + n % 64)] := by
  have code := toNat_char (by unfold Nat.isValidChar; omega : n.isValidChar)
  simp only [encodeChar, code]
  rw [if_neg (by omega), if_neg (by omega), if_pos most]

theorem encodeChar_four (least : 0x10000 ≤ n) (most : n < 0x110000) :
    encodeChar (Char.ofNat n) = [UInt8.ofNat (0xF0 + n / 262144),
      UInt8.ofNat (0x80 + n / 4096 % 64), UInt8.ofNat (0x80 + n / 64 % 64),
      UInt8.ofNat (0x80 + n % 64)] := by
  have code := toNat_char (.inr ⟨by omega, most⟩)
  simp only [encodeChar, code]
  rw [if_neg (by omega), if_neg (by omega), if_neg (by omega)]

end

/-! ## Octets that are decoded -/

/-- The octets that no character starts with. -/
theorem follow?_none {b : UInt8} (other : 0x80 ≤ b.toNat ∧ b.toNat < 0xC2 ∨ 0xF5 ≤ b.toNat) :
    follow? b = none := by
  simp only [follow?, UInt8.lt_iff_toNat_lt, UInt8.le_iff_toNat_le, Bool.and_eq_true,
    decide_eq_true_eq, beq_iff_eq, ← UInt8.toNat_inj, UInt8.reduceToNat]
  repeat rw [if_neg (by omega)]

/-- An octet that a character starts with tells how many octets the character has. -/
theorem lead_cases {b : UInt8} {found : Nat × UInt8 × UInt8} (known : follow? b = some found) :
    b.toNat < 0x80 ∨ (∃ x < 32, 2 ≤ x ∧ b = UInt8.ofNat (0xC0 + x)) ∨
      (∃ x < 16, b = UInt8.ofNat (0xE0 + x)) ∨ ∃ x < 5, b = UInt8.ofNat (0xF0 + x) := by
  have small := b.toNat_lt
  have start : ¬ (0x80 ≤ b.toNat ∧ b.toNat < 0xC2 ∨ 0xF5 ≤ b.toNat) := by
    intro other
    rw [follow?_none other] at known
    cases known
  have spelled {low : Nat} (least : low ≤ b.toNat) : b = UInt8.ofNat (low + (b.toNat - low)) := by
    rw [Nat.add_sub_cancel' least, UInt8.ofNat_toNat]
  by_cases one : b.toNat < 0x80
  · exact .inl one
  by_cases two : b.toNat < 0xE0
  · exact .inr (.inl ⟨b.toNat - 0xC0, by omega, by omega, spelled (by omega)⟩)
  by_cases three : b.toNat < 0xF0
  · exact .inr (.inr (.inl ⟨b.toNat - 0xE0, by omega, spelled (by omega)⟩))
  · exact .inr (.inr (.inr ⟨b.toNat - 0xF0, by omega, spelled (by omega)⟩))

section

variable {position owed value start : Nat} {low high lead : UInt8} {bytes : Bytes} {t : Text}

theorem exists_next
    (h : decodeFrom position (owed + 2) value low high lead start bytes = .ok t) :
    ∃ b rest, bytes = b :: rest ∧ low.toNat ≤ b.toNat ∧ b.toNat ≤ high.toNat ∧
      decodeFrom (position + 1) (owed + 1) (value * 64 + (b.toNat - 0x80)) 0x80 0xBF lead start
        rest = .ok t := by
  cases bytes with
  | nil => cases h
  | cons b rest =>
      rw [decodeFrom, if_neg (by omega)] at h
      split at h
      · rename_i within
        rw [if_neg (by omega)] at h
        simp only [Bool.and_eq_true, decide_eq_true_eq, UInt8.le_iff_toNat_le] at within
        exact ⟨b, rest, rfl, within.1, within.2, h⟩
      · cases h

theorem exists_last (h : decodeFrom position 1 value low high lead start bytes = .ok t) :
    ∃ b rest t', bytes = b :: rest ∧ low.toNat ≤ b.toNat ∧ b.toNat ≤ high.toNat ∧
      t = Char.ofNat (value * 64 + (b.toNat - 0x80)) :: t' ∧
      decodeFrom (position + 1) 0 0 0x80 0xBF b (position + 1) rest = .ok t' := by
  cases bytes with
  | nil => cases h
  | cons b rest =>
      rw [decodeFrom, if_neg (by omega)] at h
      split at h
      · rename_i within
        rw [if_pos rfl, bind_eq_ok] at h
        obtain ⟨t', later, same⟩ := h
        simp only [Bool.and_eq_true, decide_eq_true_eq, UInt8.le_iff_toNat_le] at within
        cases same
        exact ⟨b, rest, t', rfl, within.1, within.2, rfl, later⟩
      · cases h

/-- Between characters, the octets are decoded to the text. -/
def Decoded (bytes : Bytes) (t : Text) : Prop :=
  ∃ position low high lead start, decodeFrom position 0 0 low high lead start bytes = .ok t

/-- The octets of a character come first, and the others are decoded to the rest of the text. -/
def Taken (bytes : Bytes) (t : Text) : Prop :=
  ∃ c rest t', bytes = encodeChar c ++ rest ∧ t = c :: t' ∧ Decoded rest t'

theorem eq_ofNat {b : UInt8} {n : Nat} (h : b.toNat = n) : b = UInt8.ofNat n := by
  rw [← h, UInt8.ofNat_toNat]

theorem taken_one {b : UInt8} (small : b.toNat < 0x80)
    (h : decodeFrom position 0 value low high lead start (b :: bytes) = .ok t) :
    Taken (b :: bytes) t := by
  have one := follow?_one b.toNat small
  rw [UInt8.ofNat_toNat] at one
  rw [decodeFrom, if_pos rfl, one] at h
  obtain ⟨t', later, same⟩ := bind_eq_ok.mp h
  cases same
  refine ⟨_, bytes, t', ?_, rfl, _, _, _, _, _, later⟩
  rw [encodeChar_one small, UInt8.ofNat_toNat]
  rfl

variable {x : Nat}

theorem taken_two (below : x < 32) (least : 2 ≤ x)
    (h : decodeFrom position 0 value low high lead start (UInt8.ofNat (0xC0 + x) :: bytes) = .ok t) :
    Taken (UInt8.ofNat (0xC0 + x) :: bytes) t := by
  have bits : leadBits 1 (UInt8.ofNat (0xC0 + x)) = x := by
    show (UInt8.ofNat (0xC0 + x)).toNat - 0xC0 = x
    rw [toNat_ofNat (by omega), Nat.add_sub_cancel_left]
  rw [decodeFrom_lead (follow?_two x below least), bits] at h
  obtain ⟨b, rest, t', rfl, low, high, rfl, later⟩ := exists_last h
  have low : 0x80 ≤ b.toNat := low
  have high : b.toNat ≤ 0xBF := high
  refine ⟨_, rest, t', ?_, rfl, _, _, _, _, _, later⟩
  have first : x = (x * 64 + (b.toNat - 0x80)) / 64 := by omega
  have second : b = UInt8.ofNat (0x80 + (x * 64 + (b.toNat - 0x80)) % 64) := eq_ofNat (by omega)
  rw [encodeChar_two (by omega) (by omega), ← first, ← second]
  rfl

theorem taken_three (below : x < 16)
    (h : decodeFrom position 0 value low high lead start (UInt8.ofNat (0xE0 + x) :: bytes) = .ok t) :
    Taken (UInt8.ofNat (0xE0 + x) :: bytes) t := by
  have bits : leadBits 2 (UInt8.ofNat (0xE0 + x)) = x := by
    show (UInt8.ofNat (0xE0 + x)).toNat - 0xE0 = x
    rw [toNat_ofNat (by omega), Nat.add_sub_cancel_left]
  rw [decodeFrom_lead (follow?_three x below), bits] at h
  obtain ⟨b, _, rfl, low, high, h⟩ := exists_next h
  obtain ⟨d, rest, t', rfl, low', high', rfl, later⟩ := exists_last h
  simp only [apply_ite UInt8.toNat, UInt8.reduceToNat] at low high low' high'
  have least : 0x80 ≤ b.toNat ∧ (x = 0 → 0xA0 ≤ b.toNat) := by split at low <;> omega
  have most : b.toNat ≤ 0xBF ∧ (x = 13 → b.toNat ≤ 0x9F) := by split at high <;> omega
  refine ⟨_, rest, t', ?_, rfl, _, _, _, _, _, later⟩
  generalize code : (x * 64 + (b.toNat - 0x80)) * 64 + (d.toNat - 0x80) = n
  have first : n / 4096 = x := by omega
  have second : b = UInt8.ofNat (0x80 + n / 64 % 64) := eq_ofNat (by omega)
  have third : d = UInt8.ofNat (0x80 + n % 64) := eq_ofNat (by omega)
  rw [encodeChar_three (by omega) (by omega) (by omega), first, ← second, ← third]
  rfl

theorem taken_four (below : x < 5)
    (h : decodeFrom position 0 value low high lead start (UInt8.ofNat (0xF0 + x) :: bytes) = .ok t) :
    Taken (UInt8.ofNat (0xF0 + x) :: bytes) t := by
  have bits : leadBits 3 (UInt8.ofNat (0xF0 + x)) = x := by
    show (UInt8.ofNat (0xF0 + x)).toNat - 0xF0 = x
    rw [toNat_ofNat (by omega), Nat.add_sub_cancel_left]
  rw [decodeFrom_lead (follow?_four x below), bits] at h
  obtain ⟨b, _, rfl, low, high, h⟩ := exists_next h
  obtain ⟨d, _, rfl, low', high', h⟩ := exists_next h
  obtain ⟨e, rest, t', rfl, low'', high'', rfl, later⟩ := exists_last h
  simp only [apply_ite UInt8.toNat, UInt8.reduceToNat] at low high low' high' low'' high''
  have least : 0x80 ≤ b.toNat ∧ (x = 0 → 0x90 ≤ b.toNat) := by split at low <;> omega
  have most : b.toNat ≤ 0xBF ∧ (x = 4 → b.toNat ≤ 0x8F) := by split at high <;> omega
  refine ⟨_, rest, t', ?_, rfl, _, _, _, _, _, later⟩
  generalize code : ((x * 64 + (b.toNat - 0x80)) * 64 + (d.toNat - 0x80)) * 64 + (e.toNat - 0x80) = n
  have first : n / 262144 = x := by omega
  have second : b = UInt8.ofNat (0x80 + n / 4096 % 64) := eq_ofNat (by omega)
  have third : d = UInt8.ofNat (0x80 + n / 64 % 64) := eq_ofNat (by omega)
  have fourth : e = UInt8.ofNat (0x80 + n % 64) := eq_ofNat (by omega)
  rw [encodeChar_four (by omega) (by omega), first, ← second, ← third, ← fourth]
  rfl

theorem Decoded.taken {b : UInt8} (h : Decoded (b :: bytes) t) : Taken (b :: bytes) t := by
  obtain ⟨position, low, high, lead, start, h⟩ := h
  cases known : follow? b with
  | none =>
      rw [decodeFrom, if_pos rfl, known] at h
      cases h
  | some found =>
      obtain small | ⟨x, below, least, rfl⟩ | ⟨x, below, rfl⟩ | ⟨x, below, rfl⟩ := lead_cases known
      · exact taken_one small h
      · exact taken_two below least h
      · exact taken_three below h
      · exact taken_four below h

/-- Octets that are decoded are those of the text. -/
theorem Decoded.encode_eq (h : Decoded bytes t) : encode t = bytes := by
  induction size : bytes.length using Nat.strongRecOn generalizing bytes t with
  | ind length ih =>
      subst size
      cases bytes with
      | nil =>
          obtain ⟨_, _, _, _, _, h⟩ := h
          cases h
          rfl
      | cons b bytes =>
          obtain ⟨c, rest, t', cut, rfl, later⟩ := h.taken
          have some := List.length_pos_iff.mpr (encodeChar_ne_nil c)
          have shorter : rest.length < (b :: bytes).length := by
            rw [cut, List.length_append]
            omega
          rw [encode_cons, ih _ shorter later rfl, cut]

end

/-- What decoding gives back is the one text with these octets. -/
theorem decode_eq_ok_iff {bytes : Bytes} {t : Text} : decode bytes = .ok t ↔ encode t = bytes := by
  constructor
  · intro h
    exact Decoded.encode_eq ⟨_, _, _, _, _, h⟩
  · rintro rfl
    exact decode_encode t

/-! ## Parting octets -/

/-- The octets that go on with a character start none. -/
theorem follow?_tail (n : Nat) : follow? (UInt8.ofNat (0x80 + n % 64)) = none := by
  have small : n % 64 < 64 := Nat.mod_lt n (by decide)
  have code : (UInt8.ofNat (0x80 + n % 64)).toNat = 0x80 + n % 64 := toNat_ofNat (by omega)
  exact follow?_none (.inl (by omega))

/-- The first octet of a character tells how many there are, and the others start none. -/
theorem exists_encodeChar (c : Char) : ∃ lead tail low high, encodeChar c = lead :: tail ∧
    follow? lead = some (tail.length, low, high) ∧ ∀ b ∈ tail, follow? b = none := by
  have valid : c.toNat < 0xD800 ∨ 0xDFFF < c.toNat ∧ c.toNat < 0x110000 := c.valid
  simp only [encodeChar]
  generalize c.toNat = n at valid
  have more {m : Nat} {tail' : Bytes} (later : ∀ b ∈ tail', follow? b = none) :
      ∀ b ∈ UInt8.ofNat (0x80 + m % 64) :: tail', follow? b = none :=
    List.forall_mem_cons.mpr ⟨follow?_tail m, later⟩
  have none := List.forall_mem_nil fun b => follow? b = none
  split
  · rename_i small
    exact ⟨_, [], _, _, rfl, follow?_one n small, none⟩
  · split
    · exact ⟨_, [_], _, _, rfl, follow?_two (n / 64) (by omega) (by omega), more none⟩
    · split
      · exact ⟨_, [_, _], _, _, rfl, follow?_three (n / 4096) (by omega), more (more none)⟩
      · exact ⟨_, [_, _, _], _, _, rfl, follow?_four (n / 262144) (by omega),
          more (more (more none))⟩

theorem encode_inj {s t : Text} (h : encode s = encode t) : s = t := by
  have read := decode_encode s
  rw [h, decode_encode] at read
  exact (Except.ok.inj read).symm

theorem encodeChar_append_inj {c d : Char} {x y : Bytes}
    (h : encodeChar c ++ x = encodeChar d ++ y) : c = d ∧ x = y := by
  obtain ⟨lead, tail, _, _, spelled, known, -⟩ := exists_encodeChar c
  obtain ⟨lead', tail', _, _, spelled', known', -⟩ := exists_encodeChar d
  have same : lead = lead' := by
    rw [spelled, spelled'] at h
    exact (List.cons.inj h).1
  have width : (encodeChar c).length = (encodeChar d).length := by
    rw [same, known'] at known
    simp only [Option.some.injEq, Prod.mk.injEq] at known
    rw [spelled, spelled', List.length_cons, List.length_cons, known.1]
  obtain ⟨first, later⟩ := List.append_inj h width
  have alone : encode [c] = encode [d] := by
    simp only [encode, List.flatMap_cons, first]
  exact ⟨(List.cons.inj (encode_inj alone)).1, later⟩

/-- Where a character's octets stand in those of a text, the text has the character. -/
theorem exists_parts {s : Text} {left right : Bytes} {c : Char}
    (h : encode s = left ++ (encodeChar c ++ right)) :
    ∃ before after, s = before ++ c :: after ∧ encode before = left ∧ encode after = right := by
  induction s generalizing left with
  | nil =>
      have empty := (List.append_eq_nil_iff.mp (List.append_eq_nil_iff.mp h.symm).2).1
      exact absurd empty (encodeChar_ne_nil c)
  | cons d s ih =>
      rw [encode_cons] at h
      rcases List.append_eq_append_iff.mp h with ⟨more, rfl, later⟩ | ⟨more, inside, later⟩
      · obtain ⟨before, after, rfl, first, second⟩ := ih later
        exact ⟨d :: before, after, rfl, by rw [encode_cons, first], second⟩
      · cases left with
        | nil =>
            rw [List.nil_append] at inside
            subst inside
            obtain ⟨rfl, rfl⟩ := encodeChar_append_inj later
            exact ⟨[], s, rfl, rfl, rfl⟩
        | cons b left =>
            cases more with
            | nil =>
                obtain ⟨before, after, rfl, first, second⟩ := @ih [] later.symm
                refine ⟨d :: before, after, rfl, ?_, second⟩
                rw [encode_cons, first, inside, List.append_nil, List.append_nil]
            | cons e more =>
                -- what is left of the first character cannot start the other one
                obtain ⟨lead, tail, _, _, spelled, known, -⟩ := exists_encodeChar c
                obtain ⟨_, tail', _, _, spelled', -, none⟩ := exists_encodeChar d
                rw [spelled] at later
                obtain rfl := (List.cons.inj later).1
                rw [spelled'] at inside
                have behind : lead ∈ tail' := by
                  rw [(List.cons.inj inside).2]
                  exact List.mem_append_right _ List.mem_cons_self
                rw [none lead behind] at known
                cases known

end Recast.Utf8
