import Recast.Proofs.Codec.Base64

/-! # Base64 forms that were wrapped

On its way a Base64 form may lose padding and get line breaks or other white space. Neither has
to do with the letters: white space is taken out before they are looked at, and how much padding
was there is known from their number.
-/

namespace Recast.Base64

/-! ## Padding that was left out -/

theorem count_equals_encodeBytes (bytes : Bytes) : (encodeBytes bytes).count '=' ≤ 2 := by
  have letters {n : Nat} (small : n < 64) (t : Text) : (letter n :: t).count '=' = t.count '=' :=
    List.count_cons_of_ne (letter_ne_equals n small)
  induction bytes using encodeBytes.induct with
  | case1 => exact Nat.zero_le 2
  | case2 a =>
      have small := parts_lt a 0 0
      rw [encodeBytes, letters small.1, letters (by omega)]
      exact Nat.le_refl 2
  | case3 a b =>
      have small := parts_lt a b 0
      rw [encodeBytes, letters small.1, letters small.2.1, letters (by omega)]
      exact Nat.le_succ 1
  | case4 a b c rest ih =>
      have small := parts_lt a b c
      rw [encodeBytes, letters small.1, letters small.2.1, letters small.2.2.1,
        letters small.2.2.2]
      exact ih

/-- Filling up restores the padding, whatever part of it was left out. -/
theorem pad_of_append {bytes : Bytes} {part : Text} {count : Nat}
    (spelled : part ++ Text.copies count '=' = encodeBytes bytes) : pad part = encodeBytes bytes := by
  have few := count_equals_encodeBytes bytes
  rw [← spelled, List.count_append, List.count_replicate_self] at few
  have whole := length_encodeBytes_mod bytes
  rw [← spelled, List.length_append, List.length_replicate] at whole
  have restored : (4 - part.length % 4) % 4 = count := by omega
  rw [pad, restored, spelled]

theorem decodePadding_of_append {t part : Text} {count : Nat}
    (spelled : part ++ Text.copies count '=' = encode t) : decodePadding part = .ok t := by
  rw [decodePadding, pad_of_append spelled, decodeBytes_encodeBytes]
  show (Utf8.decode (Utf8.encode t)).mapError Error.octets = _
  rw [Utf8.decode_encode]
  rfl

theorem ne_nil_of_append {t part : Text} {count : Nat} (some : t ≠ [])
    (spelled : part ++ Text.copies count '=' = encode t) : part ≠ [] := by
  rintro rfl
  have first := head?_encodeBytes_ne (Utf8.encode t)
  rw [← encode, ← spelled] at first
  cases count with
  | zero => exact encode_ne_nil some spelled.symm
  | succ count => exact first rfl

/-! ## White space that was put in -/

/-- The second text is the first one with characters of `p` put in at any places. -/
inductive Spread (p : Char → Bool) : Text → Text → Prop
  | nil : Spread p [] []
  | keep {t w : Text} (c : Char) : Spread p t w → Spread p (c :: t) (c :: w)
  | insert {t w : Text} {c : Char} : p c = true → Spread p t w → Spread p t (c :: w)

namespace Spread

variable {p q : Char → Bool} {t w : Text}

theorem mono (h : Spread p t w) (sub : ∀ c, p c = true → q c = true) : Spread q t w := by
  induction h with
  | nil => exact .nil
  | keep c _ ih => exact .keep c ih
  | insert extra _ ih => exact .insert (sub _ extra) ih

theorem of_mem (h : Spread p t w) {c : Char} (member : c ∈ w) : c ∈ t ∨ p c = true := by
  induction h with
  | nil => exact .inl member
  | keep d _ ih =>
      rcases List.mem_cons.mp member with rfl | later
      · exact .inl List.mem_cons_self
      · exact (ih later).imp_left (List.mem_cons_of_mem d)
  | insert extra _ ih =>
      rcases List.mem_cons.mp member with rfl | later
      · exact .inr extra
      · exact ih later

/-- Taking out what was put in leaves the text that it was put into. -/
theorem iff_filter (clean : ∀ c ∈ t, p c = false) :
    Spread p t w ↔ w.filter (fun c => !p c) = t := by
  constructor
  · intro h
    induction h with
    | nil => rfl
    | keep c _ ih =>
        obtain ⟨first, others⟩ := List.forall_mem_cons.mp clean
        rw [List.filter_cons_of_pos (by rw [first]; rfl), ih others]
    | insert extra _ ih => rw [List.filter_cons_of_neg (by rw [extra]; decide), ih clean]
  · rintro rfl
    clear clean
    induction w with
    | nil => exact .nil
    | cons c w ih =>
        cases extra : p c with
        | false =>
            rw [List.filter_cons_of_pos (by rw [extra]; rfl)]
            exact .keep c ih
        | true =>
            rw [List.filter_cons_of_neg (by rw [extra]; decide)]
            exact .insert extra ih

theorem squeeze_eq (h : Spread Text.isBlank t w) (solid : ∀ c ∈ t, Text.isBlank c = false) :
    Text.squeeze w = t :=
  (iff_filter solid).mp h

end Spread

theorem solid_of_append {t part : Text} {count : Nat}
    (spelled : part ++ Text.copies count '=' = encode t) :
    ∀ c ∈ part, Text.isBlank c = false := by
  intro c member
  have known : c ∈ encode t := spelled ▸ List.mem_append_left _ member
  exact (isSign_of_mem known).solid

/-- A Base64 form that lost padding and got white space is read as the text that it is of. -/
theorem decode_of_spread {t part w : Text} {count : Nat}
    (spelled : part ++ Text.copies count '=' = encode t) (spread : Spread Text.isBlank part w) :
    decode w = .ok t := by
  rw [decode, spread.squeeze_eq (solid_of_append spelled), decodePadding_of_append spelled]

/-- One of two marks of padding is lost; a no-break space and a line separator are put in. -/
theorem decode_of_spread_greeting :
    "bsOp4pyTIQ=".toList ++ Text.copies 1 '=' = encode "né✓!" ∧
    Spread Text.isBlank "bsOp4pyTIQ=" "\u00A0bsO\u2028p4py\nTIQ= \t" ∧
    decode "\u00A0bsO\u2028p4py\nTIQ= \t" = .ok "né✓!".toList := by
  have spelled : "bsOp4pyTIQ=".toList ++ Text.copies 1 '=' = encode "né✓!" := by decide
  have spread : Spread Text.isBlank "bsOp4pyTIQ=" "\u00A0bsO\u2028p4py\nTIQ= \t" :=
    (Spread.iff_filter (by decide)).mpr (by decide)
  exact ⟨spelled, spread, decode_of_spread spelled spread⟩

end Recast.Base64
