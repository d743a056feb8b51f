import Recast.Proofs.Json.TrailingComma

/-! # Which data survive lenient reading

Of a text that is JSON but for commas before closing brackets, lenient reading gives the
value of what mending leaves. That is the value of the text without these commas as long
as no key or string holds a comma before white space and a closing bracket.
-/

namespace Recast.Json

open Text

/-- A document between white space. -/
structure Source where
  before : Space
  document : Document
  after : Space

namespace Source

def text (s : Source) : Text := s.before.text ++ (s.document.text ++ s.after.text)

/-- The source without the commas before closing brackets. -/
def plain (s : Source) : Source := { s with document := s.document.plain }

/-- The document that mending leaves, without the white space around it. -/
def mend (s : Source) : Source := ⟨noSpace, s.document.mend, noSpace⟩

/-- Is there a comma before a closing bracket? -/
def hasComma (s : Source) : Bool := s.document.hasComma

/-- No key or string holds a comma before white space and a closing bracket. -/
def Clean (s : Source) : Prop := s.document.Clean

/-- No object has a key twice. -/
def Distinct (s : Source) : Prop := s.document.Distinct

end Source

/-! ## Strict reading -/

theorem readAll_source (s : Source) :
    match s.document.read maxDepth with
    | .ok value => readAll false s.text = .ok value
    | .error slip => ∃ stop, readAll false s.text = .error stop ∧ slip.Of stop := by
  have start : skipSpace s.text = s.document.text ++ s.after.text := by
    rw [Source.text, skipSpace_append, (s.document.starts.append _).skipSpace]
  have enough : 2 * s.document.text.length ≤ 2 * s.text.length + 2 := by
    simp only [Source.text, List.length_append]
    omega
  have last : skipSpace s.after.text = [] := by
    have whole := skipSpace_append s.after []
    rwa [List.append_nil] at whole
  have ends : Ends s.after.text := by
    have whole := ends_space ends_nil s.after
    rwa [List.append_nil] at whole
  have agrees : Agrees _ (s.document.read maxDepth) _ := s.document.agrees enough ends
  rw [readAll, start]
  cases read : s.document.read maxDepth with
  | ok value =>
      rw [read] at agrees
      have found : readValue false _ maxDepth _ = .ok (value, s.after.text) := agrees
      simp only [found, ok_bind, last]
      rfl
  | error slip =>
      rw [read] at agrees
      obtain ⟨stop, found, same⟩ := agrees
      exact ⟨stop, by rw [found]; rfl, same⟩

theorem head_text_source (s : Source) : s.text.head? ≠ some '\uFEFF' := by
  obtain ⟨c, rest, spelled, -, -, -, -, mark⟩ := s.document.starts
  cases space : s.before.text with
  | nil => simpa [Source.text, space, spelled] using mark
  | cons d more =>
      have blank : isSpace d = true := s.before.space d (by simp [space])
      simp only [Source.text, space, List.cons_append, List.head?_cons, ne_eq, Option.some.injEq]
      rintro rfl
      exact absurd blank (by decide)

theorem parse_eq_readAll {t : Text} (plain : t.head? ≠ some '\uFEFF') :
    parse t = (readAll false t).mapError (Stop.toError t) := by
  unfold parse parseWith
  split
  · exact absurd rfl plain
  · rfl

theorem parse_source_of_ok {s : Source} {v : Json} (h : s.document.read maxDepth = .ok v) :
    parse s.text = .ok v := by
  have read := readAll_source s
  rw [h] at read
  rw [parse_eq_readAll (head_text_source s), read]
  rfl

theorem parse_source_of_comma {s : Source} (h : s.document.read maxDepth = .error .comma) :
    ∃ fault place, parse s.text = .error (.syntaxError fault place) := by
  have read := readAll_source s
  rw [h] at read
  obtain ⟨stop, read, same⟩ := read
  rw [parse_eq_readAll (head_text_source s), read]
  cases stop with
  | fault cause remaining => exact ⟨_, _, rfl⟩
  | _ => cases same

theorem read_of_parse_source {s : Source} {v : Json} (h : parse s.text = .ok v) :
    s.document.read maxDepth = .ok v := by
  have read := readAll_source s
  rw [parse_eq_readAll (head_text_source s)] at h
  cases found : s.document.read maxDepth with
  | ok w =>
      rw [found] at read
      rw [read] at h
      exact congrArg _ (Except.ok.inj h)
  | error slip =>
      rw [found] at read
      obtain ⟨stop, read, -⟩ := read
      rw [read] at h
      cases h

/-- Every text that is read strictly is the text of a source without trailing commas. -/
theorem exists_source {t : Text} {v : Json} (h : parse t = .ok v) :
    ∃ s : Source, s.plain.text = t := by
  have plain : t.head? ≠ some '\uFEFF' := by
    intro mark
    obtain ⟨rest, rfl⟩ := List.head?_eq_some_iff.mp mark
    cases h
  rw [parse_eq_readAll plain] at h
  cases read : readAll false t with
  | error stop =>
      rw [read] at h
      cases h
  | ok w =>
      simp only [readAll, bind_eq_ok, Prod.exists] at read
      obtain ⟨v, rest, read, last⟩ := read
      obtain ⟨d, spelled⟩ := exists_document read
      split at last
      · rename_i done
        obtain ⟨before, rfl⟩ := exists_space spelled
        obtain ⟨after, rfl⟩ := exists_space done
        exact ⟨⟨before, d, after⟩, by simp [Source.plain, Source.text]⟩
      · cases last

/-! ## Lenient reading -/

theorem trimRight_text_atom (a : Atom) : trimRight a.text = a.text := by
  rcases List.eq_nil_or_concat a.text with empty | ⟨start, c, spelled⟩
  · exact absurd empty a.some
  · have atomic : isAtomic c = true := a.atomic c (by simp [spelled])
    rw [spelled, List.concat_eq_append, trimRight_concat_of_solid (isBlank_of_isAtomic atomic)]

theorem Document.trimRight_text : (d : Document) → trimRight d.text = d.text
  | .atom a => trimRight_text_atom a
  | .string _ => trimRight_concat_of_solid rfl _
  | .emptyArray _ | .array _ _ => trimRight_concat_of_solid rfl _
  | .emptyObject _ | .object _ _ => trimRight_concat_of_solid rfl _

/-- Trimming stops at the first and at the last token. -/
theorem trim_text_document (d : Document) {before after : Text} (blank : ∀ c ∈ before, isBlank c)
    (blank' : ∀ c ∈ after, isBlank c) : trim (before ++ (d.text ++ after)) = d.text := by
  obtain ⟨c, rest, spelled, solid, -⟩ := d.starts
  have start : trimLeft (d.text ++ after) = d.text ++ after := by
    rw [spelled, List.cons_append, trimLeft_cons solid]
  rw [trim, trimLeft_append blank, start, trimRight_append blank', d.trimRight_text]

theorem trim_text_source (s : Source) : trim s.text = s.document.text :=
  trim_text_document s.document s.before.blank s.after.blank

/-- A document on its own. -/
def alone (d : Document) : Source := ⟨noSpace, d, noSpace⟩

theorem text_alone (d : Document) : (alone d).text = d.text := by
  simp [alone, noSpace, Source.text]

/-- Lenient reading of a source reads it as it is or, where it has a comma before a closing
    bracket, reads what mending leaves. -/
theorem parseLenient_source {s : Source} {v : Json} (h : parse s.plain.text = .ok v) :
    ∃ w, parse s.mend.text = .ok w ∧ Mends s.Clean s.Distinct v w ∧
      parseLenient s.text = .ok (if s.hasComma then w else v) := by
  have plain : s.document.plain.read maxDepth = .ok v := read_of_parse_source h
  obtain ⟨w, mended, mends⟩ := s.document.read_mend plain
  have first : (alone s.document).document.read maxDepth = refused s.hasComma v :=
    s.document.read_of_plain plain
  have second : parse (dropTrailingCommas s.document.text) = .ok w := by
    have spelled := s.document.dropTrailingCommas_text []
    rw [List.append_nil] at spelled
    rw [spelled, dropTrailingCommas, List.append_nil, ← text_alone]
    exact parse_source_of_ok mended
  refine ⟨w, parse_source_of_ok mended, mends, ?_⟩
  rw [parseLenient, candidates, trim_text_source, firstReadable, ← text_alone]
  -- With a comma the first candidate is refused, and the second is the mended text.
  cases comma : s.hasComma with
  | false =>
      rw [comma] at first
      rw [parse_source_of_ok first]
      rfl
  | true =>
      rw [comma] at first
      obtain ⟨fault, place, refusal⟩ := parse_source_of_comma first
      rw [refusal, text_alone]
      simp only [firstReadable, second, if_true]

/-- Whatever commas are put before the closing brackets of a text that reads as `v`, lenient
    reading gives `v` when there are none or every key and string is clean, and else the value
    of the text with what looks like such a comma dropped from each key and string. No other
    text gives `v`, unless an object has a key twice. -/
theorem parseLenient_of_parse {t : Text} {v : Json} (accepted : parse t = .ok v) :
    (∃ s : Source, s.plain.text = t) ∧ ∀ s : Source, s.plain.text = t →
      (∃ w, parse s.mend.text = .ok w ∧ parseLenient s.text = .ok (if s.hasComma then w else v)) ∧
        (s.Clean → parseLenient s.text = .ok v) ∧
          (s.hasComma → s.Distinct → (parseLenient s.text = .ok v ↔ s.Clean)) := by
  refine ⟨exists_source accepted, ?_⟩
  rintro s rfl
  obtain ⟨w, mended, mends, read⟩ := parseLenient_source accepted
  have clean (known : s.Clean) : parseLenient s.text = .ok v := by
    rw [read, mends.same known, ite_self]
  refine ⟨⟨w, mended, read⟩, clean, fun comma distinct => ⟨fun same => ?_, clean⟩⟩
  rw [read, if_pos comma] at same
  exact mends.changed distinct (Except.ok.inj same)

/-- The word `true`. -/
def trueAtom : Atom where
  text := "true"
  value := .bool true
  some := by decide
  atomic := by decide
  read := fun rest _ => readAtom_word (by simp [words]) rest

/-- `["a",[true,],]` -/
def twoCommas : Source :=
  let comma : Ending := ⟨noSpace, some ⟨noSpace, noSpace⟩⟩
  let key : Quoted := ⟨['a'], _, .plain (by decide) (by decide) (by decide) .nil⟩
  ⟨noSpace, .array noSpace (.more (.string key) ⟨noSpace, noSpace⟩
    (.last (.array noSpace (.last (.atom trueAtom) comma)) comma)), noSpace⟩

instance : DecidableEq (Except Error Json)
  | .ok v, .ok w => decidable_of_iff (v = w) (by simp)
  | .error e, .error f => decidable_of_iff (e = f) (by simp)
  | .ok _, .error _ => isFalse (by simp)
  | .error _, .ok _ => isFalse (by simp)

theorem parseLenient_twoCommas :
    parse "[\"a\",[true]]" = .ok (.array [.string ['a'], .array [.bool true]]) ∧
      twoCommas.text = "[\"a\",[true,],]".toList ∧
        parseLenient twoCommas.text = .ok (.array [.string ['a'], .array [.bool true]]) := by
  have accepted : parse "[\"a\",[true]]" = .ok (.array [.string ['a'], .array [.bool true]]) := by
    decide +kernel
  have spelled : twoCommas.plain.text = "[\"a\",[true]]".toList := by decide +kernel
  have clean : twoCommas.Clean := ⟨rfl, trivial⟩
  refine ⟨accepted, by decide +kernel, ?_⟩
  exact ((parseLenient_of_parse accepted).2 twoCommas spelled).2.1 clean

/-- `[",]",]` -/
def commaInString : Source :=
  let dirty : Quoted := ⟨[',', ']'], _, .plain (by decide) (by decide) (by decide)
    (.plain (by decide) (by decide) (by decide) .nil)⟩
  ⟨noSpace, .array noSpace (.last (.string dirty) ⟨noSpace, some ⟨noSpace, noSpace⟩⟩), noSpace⟩

/-- The comma in the string is dropped with the one before the bracket. -/
theorem parseLenient_commaInString :
    commaInString.plain.text = "[\",]\"]".toList ∧ commaInString.text = "[\",]\",]".toList ∧
      parse commaInString.plain.text = .ok (.array [.string [',', ']']]) ∧
        parseLenient commaInString.text = .ok (.array [.string [']']]) ∧
          parseLenient commaInString.text ≠ parse commaInString.plain.text := by
  refine ⟨?_, ?_, ?_, ?_, ?_⟩ <;> decide +kernel

end Recast.Json
