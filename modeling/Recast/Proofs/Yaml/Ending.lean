import Recast.Proofs.Text.Blank
import Recast.Proofs.Yaml.Document

/-! # The end of a written document

What stands last in a document is a scalar or an empty collection. Of the white space there
only the last line break belongs to the document, unless the scalar is plain and ends in some.
-/

namespace Recast.Yaml

open Text

/-- A document without its end. -/
def body (v : Json) : Text := writeValue .root 0 0 v

/-! ## The last scalar -/

mutual
/-- The scalar or empty collection that stands last. -/
def lastScalar : Json → Json
  | .array items => lastOfItems (.array []) items
  | .object members => lastOfMembers (.object []) members
  | v => v

def lastOfItems (before : Json) : List Json → Json
  | [] => before
  | item :: items => lastOfItems (lastScalar item) items

def lastOfMembers (before : Json) : List (Text × Json) → Json
  | [] => before
  | (_, value) :: members => lastOfMembers (lastScalar value) members
end

/-- Is this a string without quotes that ends in white space? -/
def endsBlank : Json → Bool
  | .string s => Style.ofText s == .plain && s.getLast?.any isBlank
  | _ => false

def writeScalar (fold column : Nat) : Json → Text
  | .string s => (Style.ofText s).write (some fold) column s
  | v => word v

/-- The text ends in a scalar, behind a space. -/
def EndsIn (t : Text) (v : Json) : Prop :=
  ∃ start fold column, 0 < fold ∧ t = start ++ ' ' :: writeScalar fold column v

section

variable {t : Text} {v before : Json} {place : Place} {k indent column : Nat}

theorem EndsIn.append (h : EndsIn t v) (start : Text) : EndsIn (start ++ t) v := by
  obtain ⟨start', fold, column, deep, rfl⟩ := h
  exact ⟨start ++ start', fold, column, deep, by rw [List.append_assoc]⟩

theorem EndsIn.cons (h : EndsIn t v) (c : Char) : EndsIn (c :: t) v := h.append [c]

theorem endsIn_gap (within : place ≠ .root) {fold : Nat} (deep : 0 < fold) (column : Nat)
    (h : t = writeScalar fold column v) : EndsIn (place.gap ++ t) v := by
  refine ⟨[], fold, column, deep, ?_⟩
  cases place with
  | root => exact absurd rfl within
  | afterKey => rw [h]; rfl
  | afterIndicator => rw [h]; rfl

theorem endsIn_member {member : Text × Json}
    (within : ∀ place column, place ≠ .root →
      EndsIn (writeValue place k column member.2) (lastScalar member.2)) :
    EndsIn (writeMember k member) (lastScalar member.2) := by
  obtain ⟨key, value⟩ := member
  rw [writeMember]
  split
  · exact ((within .afterKey _ (by decide)).cons _).append _
  · exact ((within .afterIndicator _ (by decide)).cons _).append _

mutual
theorem endsIn_writeValue (place : Place) (indent column : Nat) (within : place ≠ .root) (v : Json) :
    EndsIn (writeValue place indent column v) (lastScalar v) := by
  cases v with
  | null | bool | int | float =>
      simp only [writeValue, lastScalar]
      exact endsIn_gap within Nat.one_pos 0 rfl
  | string s =>
      simp only [writeValue, lastScalar]
      exact endsIn_gap within (Nat.succ_pos (indent + 1)) _ rfl
  | array items =>
      cases items with
      | nil =>
          simp only [writeValue, lastScalar]
          exact endsIn_gap within Nat.one_pos 0 rfl
      | cons item items =>
          simp only [writeValue, lastScalar, lastOfItems]
          refine endsIn_items _ items ?_
          exact ((endsIn_writeValue .afterIndicator _ _ (by decide) item).cons _).append _
  | object members =>
      cases members with
      | nil =>
          simp only [writeValue, lastScalar]
          exact endsIn_gap within Nat.one_pos 0 rfl
      | cons member members =>
          have smaller := Json.sizeOf_value_lt member
          simp only [writeValue, lastScalar, lastOfMembers]
          refine endsIn_members _ members ?_
          exact (endsIn_member fun place column within =>
            endsIn_writeValue place _ column within member.2).append _
termination_by sizeOf v
decreasing_by
  all_goals subst_vars
  all_goals simp only [Json.array.sizeOf_spec, Json.object.sizeOf_spec, List.cons.sizeOf_spec]
  all_goals omega

theorem endsIn_items (k : Nat) (items : List Json) {t : Text} {before : Json}
    (h : EndsIn t before) : EndsIn (t ++ writeItems k items) (lastOfItems before items) := by
  cases items with
  | nil => simpa [writeItems, lastOfItems] using h
  | cons item items =>
      have here := ((endsIn_writeValue .afterIndicator k (k + 1) (by decide) item).cons '-').append
        (t ++ newLine k)
      have later := endsIn_items k items here
      simpa [writeItems, lastOfItems] using later
termination_by sizeOf items

theorem endsIn_members (k : Nat) (members : List (Text × Json)) {t : Text} {before : Json}
    (h : EndsIn t before) : EndsIn (t ++ writeMembers k members) (lastOfMembers before members) := by
  cases members with
  | nil => simpa [writeMembers, lastOfMembers] using h
  | cons member members =>
      have smaller := Json.sizeOf_value_lt member
      have here := (endsIn_member (k := k) fun place column within =>
        endsIn_writeValue place k column within member.2).append (t ++ newLine k)
      have later := endsIn_members k members here
      simpa [writeMembers, lastOfMembers] using later
termination_by sizeOf members
decreasing_by
  all_goals subst_vars
  all_goals simp only [List.cons.sizeOf_spec]
  all_goals omega
end

mutual
theorem everywhere_lastScalar {p : Json → Bool} (v : Json) (all : v.everywhere p = true) :
    (lastScalar v).everywhere p = true := by
  cases v with
  | null | bool | int | float | string => simpa [lastScalar] using all
  | array items => simpa [lastScalar] using everywhere_lastOfItems items rfl all
  | object members => simpa [lastScalar] using everywhere_lastOfMembers members rfl all
termination_by sizeOf v

theorem everywhere_lastOfItems {p : Json → Bool} (items : List Json) {before : Json}
    (first : before.everywhere p = true) (all : Json.everywhereItems p items = true) :
    (lastOfItems before items).everywhere p = true := by
  cases items with
  | nil => simpa [lastOfItems] using first
  | cons item items =>
      simp only [Json.everywhereItems, Bool.and_eq_true] at all
      have here := everywhere_lastScalar item all.1
      simpa [lastOfItems] using everywhere_lastOfItems items here all.2
termination_by sizeOf items

theorem everywhere_lastOfMembers {p : Json → Bool} (members : List (Text × Json)) {before : Json}
    (first : before.everywhere p = true) (all : Json.everywhereMembers p members = true) :
    (lastOfMembers before members).everywhere p = true := by
  cases members with
  | nil => simpa [lastOfMembers] using first
  | cons member members =>
      simp only [Json.everywhereMembers, Bool.and_eq_true] at all
      have smaller := Json.sizeOf_value_lt member
      have here := everywhere_lastScalar member.2 all.1
      simpa [lastOfMembers] using everywhere_lastOfMembers members here all.2
termination_by sizeOf members
decreasing_by
  all_goals subst_vars
  all_goals simp only [List.cons.sizeOf_spec]
  all_goals omega
end

theorem EndsIn.exists_start (h : EndsIn t v) :
    ∃ start fold column, 0 < fold ∧ t = start ++ writeScalar fold column v := by
  obtain ⟨start, fold, column, deep, rfl⟩ := h
  exact ⟨start ++ [' '], fold, column, deep, by simp⟩

theorem endsIn_body (v : Json) : EndsIn (body v) (lastScalar v) ∨
    lastScalar v = v ∧ body v = writeScalar 2 0 v := by
  cases v with
  | null | bool | int | float | string =>
      exact .inr ⟨by simp [lastScalar], by simp [body, writeValue, writeScalar, Place.gap]⟩
  | array items =>
      cases items with
      | nil =>
          exact .inr ⟨by simp [lastScalar, lastOfItems],
            by simp [body, writeValue, writeScalar, Place.gap]⟩
      | cons item items =>
          have first := ((endsIn_writeValue .afterIndicator 0 1 (by decide) item).cons '-')
          left
          simpa [body, writeValue, lastScalar, lastOfItems, Place.opening] using
            endsIn_items 0 items first
  | object members =>
      cases members with
      | nil =>
          exact .inr ⟨by simp [lastScalar, lastOfMembers],
            by simp [body, writeValue, writeScalar, Place.gap]⟩
      | cons member members =>
          have first := endsIn_member (k := 0) fun place column within =>
            endsIn_writeValue place 0 column within member.2
          left
          simpa [body, writeValue, lastScalar, lastOfMembers, Place.opening] using
            endsIn_members 0 members first

/-! ## The last character -/

theorem last_quoted {s : Text} (quoted : Style.ofText s ≠ .plain) {fold : Nat} (deep : 0 < fold)
    (column : Nat) : ∃ c, (writeScalar fold column (.string s)).getLast? = some c ∧ c ≠ '.' ∧
      isBlank c = false := by
  have pos : ∀ indent, some fold = some indent → 0 < indent := by
    rintro indent ⟨⟩
    exact deep
  obtain ⟨double, w, read, same, -⟩ :=
    exists_spells_of_quoted quoted pos (fun _ => rfl) column
  refine ⟨quoteOf double, ?_, ?_, ?_⟩
  · rw [writeScalar, same, ← List.cons_append, List.getLast?_concat]
  · cases double <;> decide
  · cases double <;> rfl

theorem last_word {v : Json} (precise : v.everywhere Json.exactNumber = true)
    (other : ∀ s, v ≠ .string s) : ∃ c, (word v).getLast? = some c ∧ c ≠ '.' ∧ isBlank c = false := by
  cases v with
  | null => exact ⟨'l', rfl, by decide, rfl⟩
  | bool b => cases b <;> exact ⟨'e', rfl, by decide, rfl⟩
  | int n =>
      have digit (m : Nat) : ∃ c, (ofNat m).getLast? = some c ∧ c.isDigit = true := by
        have some : ofNat m ≠ [] := Nat.toDigits_ne_nil
        exact ⟨_, List.getLast?_eq_some_getLast some, digits_ofNat m _ (List.getLast_mem some)⟩
      have known : ∃ c, (word (.int n)).getLast? = some c ∧ c.isDigit = true := by
        cases n with
        | ofNat m => exact digit m
        | negSucc m =>
            obtain ⟨c, last, known⟩ := digit (m + 1)
            exact ⟨c, by rw [word, ofInt, List.getLast?_cons, last]; rfl, known⟩
      obtain ⟨c, last, known⟩ := known
      refine ⟨c, last, ?_, ?_⟩
      · rintro rfl
        cases known
      · exact Json.isBlank_of_isAtomic (Json.isAtomic_of_isDigit known)
  | float x => cases precise
  | string s => exact absurd rfl (other s)
  | array items => exact ⟨']', rfl, by decide, rfl⟩
  | object members => exact ⟨'\x7d', rfl, by decide, rfl⟩

theorem exists_last_plain {s : Text} (plain : Style.ofText s = .plain) {fold : Nat} (deep : 0 < fold)
    (column : Nat) : ∃ w, IsWord w ∧ (∃ start, s = start ++ w) ∧
      (writeScalar fold column (.string s) = w ∨
        ∃ start, writeScalar fold column (.string s) = start ++ ' ' :: w) := by
  have pos : ∀ indent, some fold = some indent → 0 < indent := by
    rintro indent ⟨⟩
    exact deep
  obtain ⟨w, word, ⟨start, whole⟩, written⟩ :=
    (readable_of_plain plain).words.exists_last pos column
  rw [runs, List.flatten_splitBy] at whole
  refine ⟨w, word, ⟨start, whole⟩, ?_⟩
  rw [writeScalar, plain]
  exact written

theorem last_writeScalar (precise : v.everywhere Json.exactNumber = true)
    (other : ∀ s, v = .string s → Style.ofText s ≠ .plain) {fold : Nat} (deep : 0 < fold)
    (column : Nat) : ∃ c, (writeScalar fold column v).getLast? = some c ∧ c ≠ '.' ∧
      isBlank c = false := by
  cases v with
  | string s => exact last_quoted (other s rfl) deep column
  | _ => exact last_word precise nofun

theorem getLast?_writeScalar (precise : v.everywhere Json.exactNumber = true) {fold : Nat}
    (deep : 0 < fold) (column : Nat) :
    ∃ c, (writeScalar fold column v).getLast? = some c ∧ isBlank c = endsBlank v := by
  by_cases plain : ∃ s, v = .string s ∧ Style.ofText s = .plain
  · obtain ⟨s, rfl, plain⟩ := plain
    obtain ⟨w, word, ⟨start, whole⟩, written⟩ := exists_last_plain plain deep column
    have last : (writeScalar fold column (.string s)).getLast? = w.getLast? := by
      rcases written with alone | ⟨start, behind⟩
      · rw [alone]
      · rw [behind, List.getLast?_append_of_ne_nil _ (List.cons_ne_nil _ _),
          List.getLast?_cons_of_ne_nil word.nonempty]
    refine ⟨_, last.trans (List.getLast?_eq_some_getLast word.nonempty), ?_⟩
    rw [endsBlank, whole, List.getLast?_append_of_ne_nil _ word.nonempty,
      List.getLast?_eq_some_getLast word.nonempty, ← whole, plain]
    rfl
  · have other : ∀ s, v = .string s → Style.ofText s ≠ .plain := fun s same known =>
      plain ⟨s, same, known⟩
    obtain ⟨c, last, -, solid⟩ := last_writeScalar precise other deep column
    refine ⟨c, last, solid.trans ?_⟩
    cases v with
    | string s => simp [endsBlank, other s rfl]
    | _ => rfl

/-! ## White space at the end -/

/-- The white space at the end of a document is that of its last scalar. -/
theorem getLast?_body (precise : v.everywhere Json.exactNumber = true) :
    ∃ c, (body v).getLast? = some c ∧ isBlank c = endsBlank (lastScalar v) := by
  have precise' := everywhere_lastScalar v precise
  have spelled : ∃ start fold column, 0 < fold ∧
      body v = start ++ writeScalar fold column (lastScalar v) := by
    rcases endsIn_body v with ends | ⟨same, written⟩
    · exact ends.exists_start
    · exact ⟨[], 2, 0, Nat.two_pos, by rw [same, written]; rfl⟩
  obtain ⟨start, fold, column, deep, written⟩ := spelled
  obtain ⟨c, last, blank⟩ := getLast?_writeScalar precise' deep column
  have some : writeScalar fold column (lastScalar v) ≠ [] := by
    intro none
    rw [none] at last
    cases last
  exact ⟨c, by rw [written, List.getLast?_append_of_ne_nil _ some, last], blank⟩

theorem trimRight_body_iff (precise : v.everywhere Json.exactNumber = true) :
    trimRight (body v) = body v ↔ endsBlank (lastScalar v) = false := by
  obtain ⟨c, last, blank⟩ := getLast?_body precise
  obtain ⟨start, same⟩ := List.getLast?_eq_some_iff.mp last
  rw [← blank, same]
  cases solid : isBlank c with
  | false => simp [trimRight_concat_of_solid solid]
  | true =>
      have short : trimRight (start ++ [c]) ≠ start ++ [c] := by
        intro kept
        have known := last_trimRight (t := start ++ [c]) (c := c) (by rw [kept]; simp)
        rw [solid] at known
        cases known
      simp [short]

theorem endsWith_of_last {t : Text} {c : Char} (last : t.getLast? = some c) (other : c ≠ '.') :
    endsWith documentEnd (t ++ ['\n']) = false := by
  obtain ⟨start, rfl⟩ := List.getLast?_eq_some_iff.mp last
  simp [endsWith, documentEnd, List.isPrefixOf, other.symm]

theorem endsWith_of_word (start : Text) {w : Text} (line : '\n' ∉ w) :
    endsWith documentEnd (start ++ ' ' :: w ++ ['\n']) = false := by
  have line' : '\n' ∉ w.reverse := fun member => line (List.mem_reverse.mp member)
  have apart : (start ++ ' ' :: w ++ ['\n']).reverse = '\n' :: (w.reverse ++ ' ' :: start.reverse) := by
    simp
  rw [endsWith, apart]
  -- the space or a character of the word stands where the mark has a line break or a dot
  match w.reverse, line' with
  | [], _ => simp [documentEnd, List.isPrefixOf]
  | [a], _ => simp [documentEnd, List.isPrefixOf]
  | [a, b], _ => simp [documentEnd, List.isPrefixOf]
  | [a, b, c], _ => simp [documentEnd, List.isPrefixOf]
  | a :: b :: c :: d :: rest, line' =>
      have other : '\n' ≠ d := by
        rintro rfl
        exact line' (by simp)
      simp [documentEnd, List.isPrefixOf, other]

theorem endsWith_body (precise : v.everywhere Json.exactNumber = true) (quoted : isPlain v = false) :
    endsWith documentEnd (body v ++ ['\n']) = false := by
  rcases endsIn_body v with ⟨start, fold, column, deep, written⟩ | ⟨same, written⟩
  · by_cases plain : ∃ s, lastScalar v = .string s ∧ Style.ofText s = .plain
    · obtain ⟨s, known, plain⟩ := plain
      obtain ⟨w, word, -, ends⟩ := exists_last_plain plain deep column
      have line : '\n' ∉ w := fun member => absurd (word.solid _ member).2 (by decide)
      rw [written, known]
      rcases ends with alone | ⟨start', behind⟩
      · rw [alone]
        exact endsWith_of_word start line
      · rw [behind]
        have whole := endsWith_of_word (start ++ ' ' :: start') line
        simpa using whole
    · have other : ∀ s, lastScalar v = .string s → Style.ofText s ≠ .plain := fun s known plain' =>
        plain ⟨s, known, plain'⟩
      obtain ⟨c, last, dot, -⟩ :=
        last_writeScalar (everywhere_lastScalar v precise) other deep column
      refine endsWith_of_last (c := c) ?_ dot
      have some : writeScalar fold column (lastScalar v) ≠ [] := by
        intro none
        rw [none] at last
        cases last
      rw [written, List.getLast?_append_of_ne_nil _ (List.cons_ne_nil _ _),
        List.getLast?_cons_of_ne_nil some, last]
  · have other : ∀ s, v = .string s → Style.ofText s ≠ .plain := by
      rintro s rfl plain
      rw [isPlain, plain] at quoted
      cases quoted
    obtain ⟨c, last, dot, -⟩ := last_writeScalar precise other Nat.two_pos 0
    exact endsWith_of_last (written ▸ last) dot

/-- What is cut from a document is its end, and white space. -/
theorem ofJson_eq (precise : v.everywhere Json.exactNumber = true) : ofJson v = trimRight (body v) := by
  rw [ofJson, trimDocument, dump, ← body]
  cases plain : isPlain v with
  | true =>
      have ends : endsWith documentEnd (body v ++ documentEnd) = true := by
        simp [endsWith]
      simp [ends]
  | false =>
      simp only [Bool.false_eq_true, if_false, endsWith_body precise plain]
      exact trimRight_concat_of_blank rfl _

end

end Recast.Yaml
