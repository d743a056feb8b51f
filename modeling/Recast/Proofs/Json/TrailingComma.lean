import Recast.Json.Lenient
import Recast.Proofs.Json.Members
import Recast.Proofs.Json.Reading

/-! # What mending commas does to a document

Dropping commas before closing brackets works on the characters and does not look for
strings. On the text of a document it drops the commas of the tree, and besides these
what looks the same inside of keys and strings.
-/

namespace Recast.Json

open Text

/-! ## Dropping commas -/

theorem dropTrailingCommas_cons {c : Char} (other : c ≠ ',') (t : Text) :
    dropTrailingCommas (c :: t) = c :: dropTrailingCommas t := by
  simp [dropTrailingCommas, other]

theorem dropTrailingCommas_of_not_mem {s : Text} (free : ',' ∉ s) (t : Text) :
    dropTrailingCommas (s ++ t) = s ++ dropTrailingCommas t := by
  induction s with
  | nil => rfl
  | cons c s ih =>
      simp only [List.mem_cons, not_or] at free
      rw [List.cons_append, dropTrailingCommas_cons (Ne.symm free.1), ih free.2, List.cons_append]

/-- A comma stays before anything but white space and a closing bracket. -/
theorem dropTrailingCommas_comma {t : Text} (stays : closes (trimLeft t) = false) :
    dropTrailingCommas (',' :: t) = ',' :: dropTrailingCommas t := by
  have stays' : closes (t.dropWhile isBlank) = false := stays
  simp [dropTrailingCommas, stays']

/-- A comma goes with the white space after it when a closing bracket follows. -/
theorem dropTrailingCommas_closing {blanks : Text} (blank : ∀ c ∈ blanks, isBlank c) {c : Char}
    (closing : c = ']' ∨ c = '}') (t : Text) :
    dropTrailingCommas (',' :: (blanks ++ c :: t)) = c :: dropTrailingCommas t := by
  have free : ',' ∉ blanks := fun member => absurd (blank _ member) (by decide)
  have other : c ≠ ',' := by rcases closing with rfl | rfl <;> decide
  have solid : isBlank c = false := by rcases closing with rfl | rfl <;> rfl
  have stop (t : Text) : (blanks ++ c :: t).dropWhile isBlank = c :: t :=
    dropWhile_run blank (by simpa using solid)
  have closed : closes (c :: t) = true := by rcases closing with rfl | rfl <;> rfl
  simp only [dropTrailingCommas, stop, closed, decide_true, Bool.and_self, if_true]
  rw [dropTrailingCommas_of_not_mem free, dropTrailingCommas_cons other, stop]

theorem dropWhile_append_cons {c : Char} (solid : isBlank c = false) (s t : Text) :
    (s ++ c :: t).dropWhile isBlank = s.dropWhile isBlank ++ c :: t := by
  induction s with
  | nil => rw [List.nil_append, List.dropWhile_cons_of_neg (by simp [solid])]; rfl
  | cons d s ih =>
      cases blank : isBlank d <;> simp [blank, ih]

/-- What is dropped never reaches over a character that is neither white space, a comma nor
    a closing bracket. -/
theorem dropTrailingCommas_append_cons {c : Char} (solid : isBlank c = false) (comma : c ≠ ',')
    (bracket : c ≠ ']') (brace : c ≠ '}') (s t : Text) :
    dropTrailingCommas (s ++ c :: t) = dropTrailingCommas s ++ c :: dropTrailingCommas t := by
  have open' : closes (c :: t) = false := by simp [closes, bracket, brace]
  induction s with
  | nil => exact dropTrailingCommas_cons comma t
  | cons d s ih =>
      have same : closes (s.dropWhile isBlank ++ c :: t) = closes (s.dropWhile isBlank) := by
        cases s.dropWhile isBlank with
        | nil => exact open'
        | cons e rest => rfl
      simp only [List.cons_append, dropTrailingCommas, ih, dropWhile_append_cons solid, same]
      split <;> rfl

theorem spells_dropWhile {raw : Text} {pieces : List Piece} (h : Spells raw pieces) :
    ∃ pieces', Spells (raw.dropWhile isBlank) pieces' := by
  induction h with
  | nil => exact ⟨_, .nil⟩
  | @plain c raw pieces quote escape visible rest ih =>
      cases blank : isBlank c with
      | true => simpa [blank] using ih
      | false =>
          rw [List.dropWhile_cons_of_neg (by simp [blank])]
          exact ⟨_, .plain quote escape visible rest⟩
  | escape known rest => exact ⟨_, .escape known rest⟩
  | code known rest => exact ⟨_, .code known rest⟩

theorem ne_comma_of_simpleEscape? {e c : Char} (known : simpleEscape? e = some c) : e ≠ ',' := by
  rintro rfl
  simp [simpleEscape?] at known

theorem ne_comma_of_hexValue4? {a b c d : Char} {n : Nat} (known : hexValue4? a b c d = some n) :
    a ≠ ',' ∧ b ≠ ',' ∧ c ≠ ',' ∧ d ≠ ',' := by
  have none : hexValue? ',' = none := rfl
  refine ⟨?_, ?_, ?_, ?_⟩ <;> rintro rfl <;> simp [hexValue4?, none] at known

/-- A spelled string is still one when commas are dropped in it. -/
theorem spells_dropTrailingCommas {raw : Text} {pieces : List Piece} (h : Spells raw pieces) :
    ∃ pieces', Spells (dropTrailingCommas raw) pieces' := by
  induction h with
  | nil => exact ⟨_, .nil⟩
  | @plain c raw pieces quote escape visible rest ih =>
      obtain ⟨pieces', ih⟩ := ih
      simp only [dropTrailingCommas]
      split
      · exact spells_dropWhile ih
      · exact ⟨_, .plain quote escape visible ih⟩
  | escape known rest ih =>
      obtain ⟨pieces', ih⟩ := ih
      rw [dropTrailingCommas_cons (by decide),
        dropTrailingCommas_cons (ne_comma_of_simpleEscape? known)]
      exact ⟨_, .escape known ih⟩
  | code known rest ih =>
      obtain ⟨pieces', ih⟩ := ih
      obtain ⟨a, b, c, d⟩ := ne_comma_of_hexValue4? known
      rw [dropTrailingCommas_cons (by decide), dropTrailingCommas_cons (by decide),
        dropTrailingCommas_cons a, dropTrailingCommas_cons b, dropTrailingCommas_cons c,
        dropTrailingCommas_cons d]
      exact ⟨_, .code known ih⟩

/-! ## Mended documents -/

/-- The string without what looks like a comma before a closing bracket. -/
def Quoted.mend (q : Quoted) : Quoted where
  raw := dropTrailingCommas q.raw
  spelled := by
    obtain ⟨pieces, h⟩ := q.spelled
    exact spells_dropTrailingCommas h

/-- The white space before a comma is left. -/
def Ending.mend (ending : Ending) : Ending :=
  match ending.comma? with
  | none => ending
  | some gap => ⟨gap.before, none⟩

mutual
/-- The document whose text mending leaves. -/
def Document.mend : Document → Document
  | .string q => .string q.mend
  | .array space items => .array space items.mend
  | .object space members => .object space members.mend
  | other => other

def Items.mend : Items → Items
  | .last item ending => .last item.mend ending.mend
  | .more item comma rest => .more item.mend comma rest.mend

def Members.mend : Members → Members
  | .last key colon value ending => .last key.mend colon value.mend ending.mend
  | .more key colon value comma rest => .more key.mend colon value.mend comma rest.mend
end

theorem dropTrailingCommas_space (space : Space) (t : Text) :
    dropTrailingCommas (space.text ++ t) = space.text ++ dropTrailingCommas t :=
  dropTrailingCommas_of_not_mem (fun member => absurd (space.space _ member) (by decide)) t

theorem dropTrailingCommas_quoted (q : Quoted) (t : Text) :
    dropTrailingCommas ('"' :: (q.raw ++ '"' :: t)) =
      '"' :: (q.mend.raw ++ '"' :: dropTrailingCommas t) := by
  rw [dropTrailingCommas_cons (by decide), dropTrailingCommas_append_cons rfl (by decide)
    (by decide) (by decide)]
  rfl

/-- The comma between two elements stays. -/
theorem dropTrailingCommas_gap (gap : Gap) {t : Text} (starts : Starts t) :
    dropTrailingCommas (gap.text ',' ++ t) = gap.text ',' ++ dropTrailingCommas t := by
  obtain ⟨c, rest, rfl, solid, -, bracket, brace, -⟩ := starts
  have stays : closes (trimLeft (gap.after.text ++ c :: rest)) = false := by
    rw [trimLeft_append gap.after.blank, trimLeft_cons solid]
    simp [closes, bracket, brace]
  simp only [Gap.text, List.append_assoc, List.cons_append, dropTrailingCommas_space,
    dropTrailingCommas_comma stays]

theorem dropTrailingCommas_ending (ending : Ending) {c : Char} (closing : c = ']' ∨ c = '}')
    (t : Text) :
    dropTrailingCommas (ending.text ++ c :: t) =
      ending.mend.text ++ c :: dropTrailingCommas t := by
  have other : c ≠ ',' := by rcases closing with rfl | rfl <;> decide
  obtain ⟨space, comma?⟩ := ending
  cases comma? with
  | none =>
      simp only [Ending.text, Ending.mend, dropTrailingCommas_space, dropTrailingCommas_cons other]
  | some gap =>
      simp only [Ending.text, Gap.text, Ending.mend, List.append_assoc, List.cons_append,
        dropTrailingCommas_space, dropTrailingCommas_closing gap.after.blank closing]

theorem dropTrailingCommas_keyText (key : Quoted) (colon : Gap) (t : Text) :
    dropTrailingCommas (keyText key colon ++ t) =
      keyText key.mend colon ++ dropTrailingCommas t := by
  simp only [keyText, Gap.text, List.append_assoc, List.cons_append, dropTrailingCommas_quoted,
    dropTrailingCommas_space, dropTrailingCommas_cons (c := ':') (by decide)]

mutual
/-- Mending the text of a document mends the tree. -/
theorem Document.dropTrailingCommas_text : (d : Document) → (t : Text) →
    dropTrailingCommas (d.text ++ t) = d.mend.text ++ dropTrailingCommas t
  | .atom a, t =>
      dropTrailingCommas_of_not_mem (fun member => absurd (a.atomic _ member) (by decide)) t
  | .string q, t => by
      simp only [Document.text, Document.mend, List.cons_append, List.append_assoc,
        List.nil_append, dropTrailingCommas_quoted]
  | .emptyArray space, t => by
      simp only [Document.text, Document.mend, List.cons_append, List.append_assoc,
        List.nil_append, dropTrailingCommas_space, dropTrailingCommas_cons (c := '[') (by decide),
        dropTrailingCommas_cons (c := ']') (by decide)]
  | .array space items, t => by
      simp only [Document.text, Document.mend, List.cons_append, List.append_assoc,
        List.nil_append, dropTrailingCommas_space, dropTrailingCommas_cons (c := '[') (by decide),
        items.dropTrailingCommas_text]
  | .emptyObject space, t => by
      simp only [Document.text, Document.mend, List.cons_append, List.append_assoc,
        List.nil_append, dropTrailingCommas_space, dropTrailingCommas_cons (c := '{') (by decide),
        dropTrailingCommas_cons (c := '}') (by decide)]
  | .object space members, t => by
      simp only [Document.text, Document.mend, List.cons_append, List.append_assoc,
        List.nil_append, dropTrailingCommas_space, dropTrailingCommas_cons (c := '{') (by decide),
        members.dropTrailingCommas_text]

theorem Items.dropTrailingCommas_text : (items : Items) → (t : Text) →
    dropTrailingCommas (items.text ++ ']' :: t) = items.mend.text ++ ']' :: dropTrailingCommas t
  | .last item ending, t => by
      simp only [Items.text, Items.mend, List.append_assoc, item.dropTrailingCommas_text,
        dropTrailingCommas_ending ending (.inl rfl)]
  | .more item comma rest, t => by
      simp only [Items.text, Items.mend, List.append_assoc, item.dropTrailingCommas_text,
        dropTrailingCommas_gap comma (rest.starts.append _), rest.dropTrailingCommas_text]

theorem Members.dropTrailingCommas_text : (members : Members) → (t : Text) →
    dropTrailingCommas (members.text ++ '}' :: t) =
      members.mend.text ++ '}' :: dropTrailingCommas t
  | .last key colon value ending, t => by
      simp only [Members.text, Members.mend, List.append_assoc, dropTrailingCommas_keyText,
        value.dropTrailingCommas_text, dropTrailingCommas_ending ending (.inr rfl)]
  | .more key colon value comma rest, t => by
      have starts : Starts (rest.text ++ '}' :: t) := by
        obtain ⟨tail, spelled⟩ := rest.exists_text
        exact ⟨'"', tail ++ '}' :: t, by rw [spelled]; rfl, by decide⟩
      simp only [Members.text, Members.mend, List.append_assoc, dropTrailingCommas_keyText,
        value.dropTrailingCommas_text, dropTrailingCommas_gap comma starts,
        rest.dropTrailingCommas_text]
end

/-! ## Values -/

/-- What a value becomes when a comma may stand before a closing bracket. -/
def refused {α : Type} (comma : Bool) (value : α) : Except Slip α :=
  if comma then .error .comma else .ok value

mutual
/-- A document with a comma before a closing bracket is refused for it. -/
theorem Document.read_of_plain : (d : Document) → {depth : Nat} → {v : Json} →
    d.plain.read depth = .ok v → d.read depth = refused d.hasComma v
  | .atom _, _, _, h | .string _, _, _, h | .emptyArray _, _, _, h | .emptyObject _, _, _, h => h
  | .array space items, 0, _, h => by cases h
  | .array space items, depth + 1, v, h => by
      simp only [Document.plain, Document.read, inside, ok_bind, bind_eq_ok, pure_eq_ok,
        Except.ok.injEq] at h
      obtain ⟨values, read, rfl⟩ := h
      simp only [Document.read, inside, ok_bind, items.read_of_plain read, Document.hasComma]
      cases items.hasComma <;> rfl
  | .object space members, 0, _, h => by cases h
  | .object space members, depth + 1, v, h => by
      simp only [Document.plain, Document.read, inside, ok_bind, bind_eq_ok, pure_eq_ok,
        Except.ok.injEq] at h
      obtain ⟨pairs, read, rfl⟩ := h
      simp only [Document.read, inside, ok_bind, members.read_of_plain read, Document.hasComma]
      cases members.hasComma <;> rfl

theorem Items.read_of_plain : (items : Items) → {depth : Nat} → {vs : List Json} →
    items.plain.read depth = .ok vs → items.read depth = refused items.hasComma vs
  | .last item ending, depth, vs, h => by
      simp only [Items.plain, Items.read, Ending.plain, bind_eq_ok] at h
      obtain ⟨v, read, h⟩ := h
      obtain rfl : [v] = vs := Except.ok.inj h
      simp only [Items.read, item.read_of_plain read, Items.hasComma]
      cases item.hasComma <;> cases ending.comma? <;> rfl
  | .more item comma rest, depth, vs, h => by
      simp only [Items.plain, Items.read, bind_eq_ok, pure_eq_ok, Except.ok.injEq] at h
      obtain ⟨v, read, vs, others, rfl⟩ := h
      simp only [Items.read, item.read_of_plain read, rest.read_of_plain others, Items.hasComma]
      cases item.hasComma <;> cases rest.hasComma <;> rfl

theorem Members.read_of_plain : (members : Members) → {depth : Nat} →
    {pairs : List (Text × Json)} → members.plain.read depth = .ok pairs →
      members.read depth = refused members.hasComma pairs
  | .last key colon value ending, depth, pairs, h => by
      simp only [Members.plain, Members.read, Ending.plain, bind_eq_ok] at h
      obtain ⟨v, read, h⟩ := h
      obtain rfl : [(key.value, v)] = pairs := Except.ok.inj h
      simp only [Members.read, value.read_of_plain read, Members.hasComma]
      cases value.hasComma <;> cases ending.comma? <;> rfl
  | .more key colon value comma rest, depth, pairs, h => by
      simp only [Members.plain, Members.read, bind_eq_ok, pure_eq_ok, Except.ok.injEq] at h
      obtain ⟨v, read, pairs, others, rfl⟩ := h
      simp only [Members.read, value.read_of_plain read, rest.read_of_plain others,
        Members.hasComma]
      cases value.hasComma <;> cases rest.hasComma <;> rfl
end

/-! ## Strings that mending changes -/

/-- No comma in the string comes before white space and a closing bracket. -/
def Quoted.Clean (q : Quoted) : Prop := dropTrailingCommas q.raw = q.raw

theorem Quoted.value_mend {q : Quoted} (clean : q.Clean) : q.mend.value = q.value := by
  have same : q.mend.raw = q.raw := clean
  rw [Quoted.value, Quoted.value, same]

theorem exists_of_closes {t : Text} (h : closes (t.dropWhile isBlank) = true) :
    ∃ blanks c rest, (∀ d ∈ blanks, isBlank d) ∧ (c = ']' ∨ c = '}') ∧ t = blanks ++ c :: rest := by
  cases solid : t.dropWhile isBlank with
  | nil => simp [solid, closes] at h
  | cons c rest =>
      simp only [solid, closes, Bool.or_eq_true, beq_iff_eq] at h
      refine ⟨t.takeWhile isBlank, c, rest, fun _ member => List.mem_takeWhile_imp member,
        h.symm, ?_⟩
      rw [← solid, List.takeWhile_append_dropWhile]

theorem dropTrailingCommas_comma_eq (t : Text) :
    dropTrailingCommas (',' :: t) = ',' :: dropTrailingCommas t ∨
      ∃ c rest, (c = ']' ∨ c = '}') ∧ dropTrailingCommas (',' :: t) = c :: rest := by
  cases closed : closes (t.dropWhile isBlank) with
  | false => exact .inl (dropTrailingCommas_comma closed)
  | true =>
      obtain ⟨blanks, c, rest, blank, closing, rfl⟩ := exists_of_closes closed
      exact .inr ⟨c, _, closing, dropTrailingCommas_closing blank closing rest⟩

theorem joinPieces_plain (c : Char) (first? : Option Nat) (pieces : List Piece) :
    joinPieces first? (.plain c :: pieces) =
      (first?.map charOfCode).toList ++ c :: joinPieces none pieces := by
  simp only [joinPieces]

/-- What a code adds does not depend on the pieces after it, but for a first half that waits. -/
theorem joinPieces_code (n : Nat) (first? : Option Nat) : ∃ start next?, ∀ pieces,
    joinPieces first? (.code n :: pieces) = start ++ joinPieces next? pieces := by
  cases first? with
  | none =>
      by_cases high : isHighSurrogate n = true
      · exact ⟨[], some n, fun pieces => by simp [joinPieces, high]⟩
      · exact ⟨[charOfCode n], none, fun pieces => by simp [joinPieces, high]⟩
  | some m =>
      by_cases low : isLowSurrogate n = true
      · exact ⟨[pairedChar m n], none, fun pieces => by simp [joinPieces, low]⟩
      by_cases high : isHighSurrogate n = true
      · exact ⟨[charOfCode m], some n, fun pieces => by simp [joinPieces, low, high]⟩
      · exact ⟨[charOfCode m, charOfCode n], none, fun pieces => by simp [joinPieces, low, high]⟩

/-- Where something is dropped from a string, the string differs from there on. -/
theorem clean_of_joinPieces {raw : Text} {pieces pieces' : List Piece} (h : Spells raw pieces)
    (h' : Spells (dropTrailingCommas raw) pieces') {first? : Option Nat}
    (same : joinPieces first? pieces' = joinPieces first? pieces) :
    dropTrailingCommas raw = raw := by
  induction h generalizing pieces' first? with
  | nil => rfl
  | @plain c raw pieces quote escape visible rest ih =>
      have kept (spelled : dropTrailingCommas (c :: raw) = c :: dropTrailingCommas raw) :
          dropTrailingCommas (c :: raw) = c :: raw := by
        rw [spelled] at h' ⊢
        obtain ⟨rest', rfl, spelled'⟩ := h'.tail_plain escape
        rw [joinPieces_plain, joinPieces_plain] at same
        rw [ih spelled' (List.cons.inj (List.append_cancel_left same)).2]
      by_cases comma : c = ','
      · subst comma
        rcases dropTrailingCommas_comma_eq raw with spelled | ⟨d, more, closing, spelled⟩
        · exact kept spelled
        · have plain : d ≠ '\\' := by rcases closing with rfl | rfl <;> decide
          rw [spelled] at h'
          obtain ⟨rest', rfl, -⟩ := h'.tail_plain plain
          rw [joinPieces_plain, joinPieces_plain] at same
          obtain rfl := (List.cons.inj (List.append_cancel_left same)).1
          exact absurd closing (by decide)
      · exact kept (dropTrailingCommas_cons comma raw)
  | escape known rest ih =>
      rw [dropTrailingCommas_cons (by decide),
        dropTrailingCommas_cons (ne_comma_of_simpleEscape? known)] at h' ⊢
      obtain ⟨rest', rfl, spelled'⟩ := h'.tail_escape known
      rw [joinPieces_plain, joinPieces_plain] at same
      rw [ih spelled' (List.cons.inj (List.append_cancel_left same)).2]
  | @code a b c d n raw pieces known rest ih =>
      obtain ⟨a', b', c', d'⟩ := ne_comma_of_hexValue4? known
      rw [dropTrailingCommas_cons (by decide), dropTrailingCommas_cons (by decide),
        dropTrailingCommas_cons a', dropTrailingCommas_cons b', dropTrailingCommas_cons c',
        dropTrailingCommas_cons d'] at h' ⊢
      obtain ⟨rest', rfl, spelled'⟩ := h'.tail_code known
      obtain ⟨start, next?, joined⟩ := joinPieces_code n first?
      rw [joined, joined] at same
      rw [ih spelled' (List.append_cancel_left same)]

theorem Quoted.clean_of_value {q : Quoted} (same : q.mend.value = q.value) : q.Clean := by
  obtain ⟨pieces, h⟩ := q.spelled
  obtain ⟨pieces', h'⟩ := q.mend.spelled
  rw [q.value_eq h, q.mend.value_eq h'] at same
  exact clean_of_joinPieces h h' same

mutual
/-- Every key and string is clean. -/
def Document.Clean : Document → Prop
  | .string q => q.Clean
  | .array _ items => items.Clean
  | .object _ members => members.Clean
  | _ => True

def Items.Clean : Items → Prop
  | .last item _ => item.Clean
  | .more item _ rest => item.Clean ∧ rest.Clean

def Members.Clean : Members → Prop
  | .last key _ value _ => key.Clean ∧ value.Clean
  | .more key _ value _ rest => (key.Clean ∧ value.Clean) ∧ rest.Clean
end

/-- The keys of some members. -/
def Members.keys : Members → List Text
  | .last key .. => [key.value]
  | .more key _ _ _ rest => key.value :: rest.keys

mutual
/-- No object has a key twice. -/
def Document.Distinct : Document → Prop
  | .array _ items => items.Distinct
  | .object _ members => members.keys.Nodup ∧ members.Distinct
  | _ => True

def Items.Distinct : Items → Prop
  | .last item _ => item.Distinct
  | .more item _ rest => item.Distinct ∧ rest.Distinct

def Members.Distinct : Members → Prop
  | .last _ _ value _ => value.Distinct
  | .more _ _ value _ rest => value.Distinct ∧ rest.Distinct
end

/-- What mending makes of a value: the same where every string is clean, and nothing else
    where no key can hide the change. -/
structure Mends {α : Type} (clean distinct : Prop) (before after : α) : Prop where
  same : clean → after = before
  changed : distinct → after = before → clean

theorem mends_refl {α : Type} {distinct : Prop} (value : α) : Mends True distinct value value :=
  ⟨fun _ => rfl, fun _ _ => trivial⟩

theorem Mends.map {α β : Type} {clean distinct : Prop} {before after : α}
    (h : Mends clean distinct before after) {f : α → β} (injective : Function.Injective f) :
    Mends clean distinct (f before) (f after) :=
  ⟨fun known => congrArg f (h.same known),
    fun apart equal => h.changed apart (injective equal)⟩

theorem Mends.cons {α : Type} {clean clean' distinct distinct' : Prop} {before after : α}
    {befores afters : List α} (h : Mends clean distinct before after)
    (h' : Mends clean' distinct' befores afters) :
    Mends (clean ∧ clean') (distinct ∧ distinct') (before :: befores) (after :: afters) where
  same := fun ⟨first, rest⟩ => by rw [h.same first, h'.same rest]
  changed := fun ⟨first, rest⟩ equal => by
    obtain ⟨head, tail⟩ := List.cons.inj equal
    exact ⟨h.changed first head, h'.changed rest tail⟩

theorem Quoted.mends (q : Quoted) {distinct : Prop} : Mends q.Clean distinct q.value q.mend.value :=
  ⟨fun clean => q.value_mend clean, fun _ same => q.clean_of_value same⟩

theorem Quoted.mends_member (key : Quoted) {clean distinct : Prop} {before after : Json}
    (h : Mends clean distinct before after) :
    Mends (key.Clean ∧ clean) distinct (key.value, before) (key.mend.value, after) where
  same := fun ⟨first, second⟩ => by rw [key.value_mend first, h.same second]
  changed := fun apart equal => by
    obtain ⟨first, second⟩ := Prod.mk.inj equal
    exact ⟨key.clean_of_value first, h.changed apart second⟩

/-- Repeated keys in the mended members show as missing members. -/
theorem Mends.ofPairs {clean distinct : Prop} {before after : List (Text × Json)}
    (h : Mends clean distinct before after) (long : after.length = before.length) :
    Mends clean ((Json.keys before).Nodup ∧ distinct) (Json.object (ofPairs before))
      (Json.object (ofPairs after)) where
  same := fun known => by rw [h.same known]
  changed := fun ⟨apart, distinct⟩ equal => by
    have members : Json.ofPairs after = before := by
      rw [← ofPairs_of_nodup apart]
      exact Json.object.inj equal
    have apart' : (Json.keys after).Nodup := nodup_of_length_ofPairs (by rw [members, long])
    rw [ofPairs_of_nodup apart'] at members
    exact h.changed distinct members

mutual
/-- The mended document is read as well, and as the same value where every string is clean. -/
theorem Document.read_mend : (d : Document) → {depth : Nat} → {v : Json} →
    d.plain.read depth = .ok v →
      ∃ w, d.mend.read depth = .ok w ∧ Mends d.Clean d.Distinct v w
  | .atom _, _, v, h | .emptyArray _, _, v, h | .emptyObject _, _, v, h => ⟨v, h, mends_refl v⟩
  | .string q, _, _, h => by
      obtain rfl := Except.ok.inj h
      exact ⟨_, rfl, q.mends.map fun _ _ => Json.string.inj⟩
  | .array space items, 0, _, h => by cases h
  | .array space items, depth + 1, v, h => by
      simp only [Document.plain, Document.read, inside, ok_bind, bind_eq_ok, pure_eq_ok,
        Except.ok.injEq] at h
      obtain ⟨values, read, rfl⟩ := h
      obtain ⟨values', read', mends⟩ := items.read_mend read
      refine ⟨.array values', ?_, mends.map fun _ _ => Json.array.inj⟩
      simp only [Document.mend, Document.read, inside, ok_bind, read', pure_eq_ok]
  | .object space members, 0, _, h => by cases h
  | .object space members, depth + 1, v, h => by
      simp only [Document.plain, Document.read, inside, ok_bind, bind_eq_ok, pure_eq_ok,
        Except.ok.injEq] at h
      obtain ⟨pairs, read, rfl⟩ := h
      obtain ⟨pairs', read', keys, long, mends⟩ := members.read_mend read
      refine ⟨.object (ofPairs pairs'), ?_, ?_⟩
      · simp only [Document.mend, Document.read, inside, ok_bind, read', pure_eq_ok]
      · have whole := mends.ofPairs long
        rwa [keys] at whole

theorem Items.read_mend : (items : Items) → {depth : Nat} → {vs : List Json} →
    items.plain.read depth = .ok vs →
      ∃ ws, items.mend.read depth = .ok ws ∧ Mends items.Clean items.Distinct vs ws
  | .last item ending, depth, vs, h => by
      simp only [Items.plain, Items.read, Ending.plain, bind_eq_ok] at h
      obtain ⟨v, read, h⟩ := h
      obtain rfl : [v] = vs := Except.ok.inj h
      obtain ⟨w, read', mends⟩ := item.read_mend read
      refine ⟨[w], ?_, mends.map fun _ _ same => List.cons.inj same |>.1⟩
      simp only [Items.mend, Items.read, read']
      obtain ⟨space, comma?⟩ := ending
      cases comma? <;> rfl
  | .more item comma rest, depth, vs, h => by
      simp only [Items.plain, Items.read, bind_eq_ok, pure_eq_ok, Except.ok.injEq] at h
      obtain ⟨v, read, vs, others, rfl⟩ := h
      obtain ⟨w, read', mends⟩ := item.read_mend read
      obtain ⟨ws, others', mends'⟩ := rest.read_mend others
      refine ⟨w :: ws, ?_, mends.cons mends'⟩
      simp only [Items.mend, Items.read, read', others', ok_bind, pure_eq_ok]

theorem Members.read_mend : (members : Members) → {depth : Nat} → {pairs : List (Text × Json)} →
    members.plain.read depth = .ok pairs →
      ∃ pairs', members.mend.read depth = .ok pairs' ∧ Json.keys pairs = members.keys ∧
        pairs'.length = pairs.length ∧ Mends members.Clean members.Distinct pairs pairs'
  | .last key colon value ending, depth, pairs, h => by
      simp only [Members.plain, Members.read, Ending.plain, bind_eq_ok] at h
      obtain ⟨v, read, h⟩ := h
      obtain rfl : [(key.value, v)] = pairs := Except.ok.inj h
      obtain ⟨w, read', mends⟩ := value.read_mend read
      refine ⟨[(key.mend.value, w)], ?_, rfl, rfl,
        (key.mends_member mends).map fun _ _ same => List.cons.inj same |>.1⟩
      simp only [Members.mend, Members.read, read']
      obtain ⟨space, comma?⟩ := ending
      cases comma? <;> rfl
  | .more key colon value comma rest, depth, pairs, h => by
      simp only [Members.plain, Members.read, bind_eq_ok, pure_eq_ok, Except.ok.injEq] at h
      obtain ⟨v, read, pairs, others, rfl⟩ := h
      obtain ⟨w, read', mends⟩ := value.read_mend read
      obtain ⟨pairs', others', keys, long, mends'⟩ := rest.read_mend others
      refine ⟨(key.mend.value, w) :: pairs', ?_, ?_, ?_, (key.mends_member mends).cons mends'⟩
      · simp only [Members.mend, Members.read, read', others', ok_bind, pure_eq_ok]
      · rw [Members.keys, ← keys]
        rfl
      · rw [List.length_cons, List.length_cons, long]
end

end Recast.Json
