import Recast.Convert
import Recast.Proofs.Codec.Octets
import Recast.Proofs.Codec.Percent

/-! # What escapes stand for

An escape stands for an octet, and every other character for its UTF-8. Runs of ASCII
characters are decoded one by one, yet what comes out is the text of all octets together: they
can be parted at each character that is written as itself.
-/

namespace Recast

namespace Percent

open Json

/-! ## Escapes -/

/-- The hexadecimal digits, letters in both cases. -/
def hexDigits : Text := "0123456789abcdefABCDEF"

theorem ascii_of_mem_hexDigits : ∀ c ∈ hexDigits, c.toNat < 0x80 := by decide

theorem isSome_hexValue?_iff {c : Char} : (hexValue? c).isSome ↔ c ∈ hexDigits := by
  by_cases small : c.toNat < 0x80
  · exact Text.of_toNat_lt c small (by set_option maxRecDepth 2000 in decide)
  · have above (limit : Char) (ascii : limit.toNat < 0x80) : ¬ c ≤ limit := by
      intro below
      have : c.toNat ≤ limit.toNat := below
      omega
    have none : hexValue? c = none := by
      simp [hexValue?, above '9' (by decide), above 'f' (by decide), above 'F' (by decide)]
    rw [none]
    constructor
    · intro some
      cases some
    · intro member
      exact absurd (ascii_of_mem_hexDigits c member) small

/-- The text starts with two hexadecimal digits. -/
def StartsWithPair (t : Text) : Prop :=
  ∃ a b rest, t = a :: b :: rest ∧ a ∈ hexDigits ∧ b ∈ hexDigits

/-- A percent sign stands at the position, without two hexadecimal digits right after it. -/
def MalformedAt (t : Text) (position : Nat) : Prop :=
  ∃ rest, t.drop position = '%' :: rest ∧ ¬ StartsWithPair rest

def FirstMalformed (t : Text) (position : Nat) : Prop :=
  MalformedAt t position ∧ ∀ earlier < position, ¬ MalformedAt t earlier

/-- The octets that a text stands for. -/
def denoted : Text → Bytes
  | [] => []
  | '%' :: a :: b :: rest =>
    match hexValue? a, hexValue? b with
    | some high, some low => UInt8.ofNat (high * 16 + low) :: denoted rest
    | _, _ => String.utf8EncodeChar '%' ++ denoted (a :: b :: rest)
  | c :: rest => String.utf8EncodeChar c ++ denoted rest

section

variable {c : Char} {t : Text}

theorem malformedAt_zero : MalformedAt (c :: t) 0 ↔ c = '%' ∧ ¬ StartsWithPair t := by
  constructor
  · rintro ⟨rest, same, alone⟩
    cases same
    exact ⟨rfl, alone⟩
  · rintro ⟨rfl, alone⟩
    exact ⟨t, rfl, alone⟩

/-- A text that starts with two digits, and their values. -/
theorem exists_pair (pair : StartsWithPair t) :
    ∃ a b rest high low, t = a :: b :: rest ∧ hexValue? a = some high ∧ hexValue? b = some low := by
  obtain ⟨a, b, rest, rfl, first, second⟩ := pair
  obtain ⟨high, first⟩ := Option.isSome_iff_exists.mp (isSome_hexValue?_iff.mpr first)
  obtain ⟨low, second⟩ := Option.isSome_iff_exists.mp (isSome_hexValue?_iff.mpr second)
  exact ⟨a, b, rest, high, low, rfl, first, second⟩

theorem hexValue?_of_alone {a b : Char} {rest : Text} (alone : ¬ StartsWithPair (a :: b :: rest)) :
    hexValue? a = none ∨ hexValue? b = none := by
  rw [← Option.not_isSome_iff_eq_none, ← Option.not_isSome_iff_eq_none, isSome_hexValue?_iff,
    isSome_hexValue?_iff, ← not_and_or]
  rintro ⟨first, second⟩
  exact alone ⟨a, b, rest, rfl, first, second⟩

/-! ## The first malformed escape -/

theorem malformedFrom?_of_malformed (here : MalformedAt (c :: t) 0) (start : Nat) :
    malformedFrom? start (c :: t) = some start := by
  obtain ⟨rfl, alone⟩ := malformedAt_zero.mp here
  match t with
  | [] => rfl
  | [_] => rfl
  | a :: b :: rest =>
      rcases hexValue?_of_alone alone with none | none <;> simp [malformedFrom?, none]

theorem malformedFrom?_of_formed (here : ¬ MalformedAt (c :: t) 0) (start : Nat) :
    malformedFrom? start (c :: t) = malformedFrom? (start + 1) t := by
  by_cases percent : c = '%'
  · subst percent
    have pair : StartsWithPair t := by
      by_contra alone
      exact here (malformedAt_zero.mpr ⟨rfl, alone⟩)
    obtain ⟨a, b, rest, high, low, rfl, first, second⟩ := exists_pair pair
    rw [malformedFrom?, first, second]
    rfl
  · exact malformedFrom?_cons percent start t

theorem malformedFrom?_eq_none_iff {start : Nat} :
    malformedFrom? start t = none ↔ ∀ position, ¬ MalformedAt t position := by
  induction t generalizing start with
  | nil => simp [malformedFrom?, MalformedAt]
  | cons c t ih =>
      by_cases here : MalformedAt (c :: t) 0
      · rw [malformedFrom?_of_malformed here]
        constructor
        · intro none
          cases none
        · intro formed
          exact absurd here (formed 0)
      · rw [malformedFrom?_of_formed here, ih]
        constructor
        · intro formed position
          cases position with
          | zero => exact here
          | succ position => exact formed position
        · intro formed position
          exact formed (position + 1)

theorem malformedFrom?_of_first {start position : Nat} (first : FirstMalformed t position) :
    malformedFrom? start t = some (start + position) := by
  induction t generalizing start position with
  | nil =>
      obtain ⟨⟨rest, none, -⟩, -⟩ := first
      simp at none
  | cons c t ih =>
      obtain ⟨malformed, formed⟩ := first
      cases position with
      | zero => exact malformedFrom?_of_malformed malformed start
      | succ position =>
          have later : FirstMalformed t position :=
            ⟨malformed, fun earlier below => formed (earlier + 1) (Nat.succ_lt_succ below)⟩
          rw [malformedFrom?_of_formed (formed 0 (Nat.succ_pos position)), ih later]
          congr 1
          omega

/-! ## Octets -/

theorem denoted_pair {rest : Text} {a b : Char} {high low : Nat} (first : hexValue? a = some high)
    (second : hexValue? b = some low) :
    denoted ('%' :: a :: b :: rest) = UInt8.ofNat (high * 16 + low) :: denoted rest := by
  rw [denoted, first, second]

theorem denoted_alone (alone : c = '%' → ¬ StartsWithPair t) :
    denoted (c :: t) = String.utf8EncodeChar c ++ denoted t := by
  by_cases percent : c = '%'
  · subst percent
    match t with
    | [] => rfl
    | [_] => rfl
    | a :: b :: rest =>
        rcases hexValue?_of_alone (alone rfl) with none | none
        · rw [denoted, none]
        · rw [denoted, none]
          cases hexValue? a <;> rfl
  · rw [denoted]
    intro _ _ _ same
    exact absurd same percent

theorem octets_pair {rest : Text} {a b : Char} {high low : Nat} (first : hexValue? a = some high)
    (second : hexValue? b = some low) :
    octets ('%' :: a :: b :: rest) = UInt8.ofNat (high * 16 + low) :: octets rest := by
  rw [octets, first, second]

theorem octets_alone (alone : c = '%' → ¬ StartsWithPair t) :
    octets (c :: t) = UInt8.ofNat c.toNat :: octets t := by
  by_cases percent : c = '%'
  · subst percent
    match t with
    | [] => rfl
    | [_] => rfl
    | a :: b :: rest =>
        rcases hexValue?_of_alone (alone rfl) with none | none
        · rw [octets, none]
          rfl
        · rw [octets, none]
          cases hexValue? a <;> rfl
  · exact octets_cons percent t

/-- No digit comes next. -/
def Apart (t : Text) : Prop := ∀ c ∈ t.head?, c ∉ hexDigits

theorem apart_nil : Apart [] := by
  intro c first
  cases first

theorem startsWithPair_append_iff {more : Text} (apart : Apart more) :
    StartsWithPair (t ++ more) ↔ StartsWithPair t := by
  constructor
  · rintro ⟨a, b, rest, same, first, second⟩
    match t with
    | [] =>
        obtain rfl : more = a :: b :: rest := same
        exact absurd first (apart a rfl)
    | [d] =>
        obtain ⟨rfl, rfl⟩ := List.cons.inj same
        exact absurd second (apart b rfl)
    | d :: e :: t =>
        cases same
        exact ⟨a, b, t, rfl, first, second⟩
  · rintro ⟨a, b, rest, rfl, first, second⟩
    exact ⟨a, b, rest ++ more, rfl, first, second⟩

/-- A run of ASCII characters stands for its own octets. -/
theorem denoted_append {run more : Text} (ascii : ∀ c ∈ run, isAscii c = true)
    (apart : Apart more) : denoted (run ++ more) = octets run ++ denoted more := by
  induction size : run.length using Nat.strongRecOn generalizing run with
  | ind length ih =>
      subst size
      cases run with
      | nil => rfl
      | cons c run =>
          rw [List.forall_mem_cons] at ascii
          by_cases escape : c = '%' ∧ StartsWithPair run
          · obtain ⟨rfl, pair⟩ := escape
            obtain ⟨a, b, rest, high, low, rfl, first, second⟩ := exists_pair pair
            have later : ∀ d ∈ rest, isAscii d = true := fun d member =>
              ascii.2 d (List.mem_cons_of_mem _ (List.mem_cons_of_mem _ member))
            have rest := ih _ (by simp only [List.length_cons]; omega) later rfl
            rw [octets_pair first second]
            exact (denoted_pair first second).trans (congrArg _ rest)
          · have alone : c = '%' → ¬ StartsWithPair run := fun percent pair =>
              escape ⟨percent, pair⟩
            have same : String.utf8EncodeChar c = [UInt8.ofNat c.toNat] := by
              rw [← Utf8.encodeChar_eq, Utf8.encodeChar_of_ascii (of_decide_eq_true ascii.1)]
            rw [octets_alone alone, List.cons_append, List.cons_append,
              ← ih _ (by simp) ascii.2 rfl, denoted_alone, same]
            · rfl
            · intro percent
              rw [startsWithPair_append_iff apart]
              exact alone percent

end

/-! ## Decoding -/

theorem decodeRuns_eq_ok_iff {run t s : Text} (ascii : ∀ c ∈ run, isAscii c = true) :
    decodeRuns run t = .ok s ↔ Utf8.encode s = denoted (run.reverse ++ t) := by
  induction t generalizing run s with
  | nil =>
      have forward : ∀ c ∈ run.reverse, isAscii c = true := fun c member =>
        ascii c (List.mem_reverse.mp member)
      rw [decodeRuns, mapError_eq_ok, Utf8.decode_eq_ok_iff, denoted_append forward apart_nil,
        denoted, List.append_nil]
  | cons c t ih =>
      by_cases small : isAscii c = true
      · rw [decodeRuns, if_pos small, ih (List.forall_mem_cons.mpr ⟨small, ascii⟩),
          List.reverse_cons, List.append_assoc]
        rfl
      · have forward : ∀ c ∈ run.reverse, isAscii c = true := fun c member =>
          ascii c (List.mem_reverse.mp member)
        have apart : Apart (c :: t) := by
          rintro d first member
          cases first
          exact small (decide_eq_true (ascii_of_mem_hexDigits _ member))
        have plain : c = '%' → ¬ StartsWithPair t := by
          rintro rfl
          exact absurd rfl small
        rw [denoted_append forward apart, denoted_alone plain, ← Utf8.encodeChar_eq, decodeRuns,
          if_neg small]
        simp only [bind_eq_ok, pure_eq_ok, Except.ok.injEq, mapError_eq_ok, Utf8.decode_eq_ok_iff,
          ih (List.forall_mem_nil _), List.reverse_nil, List.nil_append]
        constructor
        · rintro ⟨decoded, first, others, later, rfl⟩
          rw [Utf8.encode_append, Utf8.encode_cons, first, later]
        · intro whole
          obtain ⟨before, after, rfl, first, later⟩ := Utf8.exists_parts whole
          exact ⟨before, first, after, later, rfl⟩

/-- Decoding gives the text of the octets that are denoted, if no escape is malformed. -/
theorem decode_eq_ok_iff {t s : Text} :
    decode t = .ok s ↔
      (∀ position, ¬ MalformedAt t position) ∧ Utf8.encode s = denoted t := by
  rw [decode]
  cases found : malformedFrom? 0 t with
  | none =>
      have formed := malformedFrom?_eq_none_iff.mp found
      simp [decodeRuns_eq_ok_iff, formed]
  | some position =>
      constructor
      · intro h
        cases h
      · rintro ⟨formed, -⟩
        rw [malformedFrom?_eq_none_iff.mpr formed] at found
        cases found

theorem decode_of_first {t : Text} {position : Nat} (first : FirstMalformed t position) :
    decode t = .error (.malformedEscape position) := by
  rw [decode, malformedFrom?_of_first first, Nat.zero_add]

theorem message_malformedEscape (position : Nat) :
    (Refusal.percent (.malformedEscape position)).message =
      "Invalid URL-encoded input: " ++ "malformed escape at position " ++ Text.ofNat position :=
  (List.append_assoc _ _ _).symm

theorem toByteArray_encode (s : Text) : (Utf8.encode s).toByteArray = s.utf8Encode := by
  rw [Utf8.encode_eq]
  rfl

open Engine in
/-- A text can be decoded exactly when two hexadecimal digits follow each percent sign and the
octets that it stands for are UTF-8, and then it is decoded to their text. All else is
refused, with the place of the first malformed escape if there is one. -/
theorem urlDecode_iff_isValidUTF8 (settings : List (Text × Json)) (t : Text) :
    ((∃ s, urlDecode.run settings t = .ok s) ↔
        (∀ position, ¬ MalformedAt t position) ∧ (denoted t).toByteArray.IsValidUTF8) ∧
      (∀ s, urlDecode.run settings t = .ok s → s.utf8Encode = (denoted t).toByteArray) ∧
      (∀ refusal, urlDecode.run settings t = .error refusal → refusal.kind? = some .parse) ∧
      ∀ position, FirstMalformed t position → ∃ refusal,
        urlDecode.run settings t = .error refusal ∧ refusal.message =
          "Invalid URL-encoded input: " ++ "malformed escape at position " ++
            Text.ofNat position := by
  have run : urlDecode.run settings t = (decode t).mapError .percent := rfl
  have octets {s : Text} : Utf8.encode s = denoted t ↔ s.utf8Encode = (denoted t).toByteArray := by
    rw [← toByteArray_encode, List.toByteArray_inj]
  simp only [run, mapError_eq_ok, decode_eq_ok_iff, octets]
  refine ⟨?_, ?_, ?_, ?_⟩
  · constructor
    · rintro ⟨s, formed, same⟩
      exact ⟨formed, ⟨s, same.symm⟩⟩
    · rintro ⟨formed, ⟨s, same⟩⟩
      exact ⟨s, formed, same.symm⟩
  · rintro s ⟨-, same⟩
    exact same
  · intro refusal refused
    cases found : decode t with
    | ok s =>
        rw [found] at refused
        cases refused
    | error e =>
        rw [found] at refused
        cases refused
        rfl
  · intro position first
    rw [decode_of_first first]
    exact ⟨_, rfl, message_malformedEscape position⟩

end Percent
end Recast
