import Recast.Detect
import Recast.Proofs.Convert.Failure
import Recast.Proofs.Json.Accepted
import Recast.Proofs.Json.Braces

/-! # Confident guesses

The checks overlap, but no other check answers with one of the formats of JSON, and none
before it takes a text that starts with a bracket. So a confident guess of JSON is as good as
reading the text: it is made exactly when the trimmed text is an array or an object, and then
every converter for the format reads the text.
-/

namespace Recast

/-- Is the value an array or an object? -/
def Json.isContainer : Json → Bool
  | .array _ | .object _ => true
  | _ => false

namespace Detect

open Text Json

/-! ## Texts that start with a bracket -/

/-- Does the text start with a bracket or a brace? -/
def Opens (t : Text) : Prop := t.head? = some '{' ∨ t.head? = some '['

theorem not_opens_atom (a : Atom) : ¬ Opens a.text := by
  intro opens
  have absent {c : Char} (bracket : isAtomic c = false) : a.text.head? ≠ some c := by
    intro head
    have atomic := a.atomic c (List.mem_of_head? head)
    rw [bracket] at atomic
    cases atomic
  rcases opens with brace | bracket
  · exact absent rfl brace
  · exact absent rfl bracket

theorem isContainer_of_single {v : Json} (single : Single v) : v.isContainer = false := by
  cases single <;> rfl

theorem isContainer_atom (a : Atom) : a.value.isContainer = false :=
  isContainer_of_single (single_of_other (a.read [] ends_nil))

/-- A document with a bracket in front is a container, and no other one is. -/
theorem opens_text_iff {d : Document} {depth : Nat} {v : Json} (read : d.read depth = .ok v) :
    Opens d.text ↔ v.isContainer := by
  cases d with
  | atom a =>
      cases read
      exact iff_of_false (not_opens_atom a) (by simp [isContainer_atom])
  | string q =>
      cases read
      simp [Opens, Document.text, isContainer]
  | emptyArray space =>
      obtain ⟨-, -, same⟩ := bind_eq_ok.mp read
      cases same
      exact iff_of_true (.inr rfl) rfl
  | array space items =>
      obtain ⟨deeper, -, inner⟩ := bind_eq_ok.mp read
      obtain ⟨values, -, same⟩ := bind_eq_ok.mp inner
      cases same
      exact iff_of_true (.inr rfl) rfl
  | emptyObject space =>
      obtain ⟨-, -, same⟩ := bind_eq_ok.mp read
      cases same
      exact iff_of_true (.inl rfl) rfl
  | object space members =>
      obtain ⟨deeper, -, inner⟩ := bind_eq_ok.mp read
      obtain ⟨values, -, same⟩ := bind_eq_ok.mp inner
      cases same
      exact iff_of_true (.inl rfl) rfl

/-- The text trimmed, when it reads, is a document. -/
theorem opens_iff_of_parse {t : Text} {v : Json} (accepted : parse (trim t) = .ok v) :
    Opens (trim t) ↔ v.isContainer := by
  obtain ⟨d, read, trimmed⟩ := exists_document_of_parse accepted
  have whole := @trimmed [] [] (List.forall_mem_nil _) (List.forall_mem_nil _)
  rw [List.nil_append, List.append_nil, trim_trim] at whole
  rw [whole]
  exact opens_text_iff (parse_document_iff.mp read)

theorem isToken_of_opens {t : Text} (opens : Opens t) : isToken t = false := by
  have outside {c : Char} (other : c ≠ '.') (sign : isTokenChar c = false) (rest : Text) :
      isToken (c :: rest) = false := by
    obtain ⟨piece, pieces, split⟩ := exists_splitOn_cons other rest
    simp [isToken, split, sign]
  cases t with
  | nil => rcases opens with brace | bracket <;> contradiction
  | cons c rest =>
      rcases opens with brace | bracket
      · cases brace
        exact outside (by decide) rfl rest
      · cases bracket
        exact outside (by decide) rfl rest

/-! ## The check that reads -/

/-- The guess for a text that reads as a container. -/
def guessOf (v : Json) : Guess :=
  if describesValues v then ⟨.jsonSchema, .medium⟩ else ⟨.json, .high⟩

/-- The guesses that are made for texts that read, and for no other texts. -/
def confident : List Guess := [⟨.json, .high⟩, ⟨.jsonSchema, .medium⟩]

theorem guessOf_mem (v : Json) : guessOf v ∈ confident := by
  unfold guessOf
  split <;> simp [confident]

section

variable {t : Text} {guess : Guess}

theorem json?_of_ok {v : Json} (opens : Opens t) (read : parse t = .ok v) :
    json? t = some (guessOf v) := by
  have bracket : (t.head? = some '{' || t.head? = some '[') = true := by
    simpa [Opens] using opens
  simp only [json?, if_pos bracket, read, guessOf]
  split <;> rfl

theorem exists_of_json? (answers : json? t = some guess) (sure : guess ∈ confident) :
    Opens t ∧ ∃ v, parse t = .ok v := by
  unfold json? at answers
  split at answers
  · rename_i bracket
    refine ⟨by simpa [Opens] using bracket, ?_⟩
    split at answers
    · rename_i v read
      exact ⟨v, read⟩
    · split at answers
      · cases answers
        exact absurd sure (by decide)
      · cases answers
  · cases answers

theorem json?_eq_some_iff (sure : guess ∈ confident) :
    json? t = some guess ↔ Opens t ∧ ∃ v, parse t = .ok v ∧ guessOf v = guess := by
  constructor
  · intro answers
    obtain ⟨opens, v, read⟩ := exists_of_json? answers sure
    rw [json?_of_ok opens read, Option.some.injEq] at answers
    exact ⟨opens, v, read, answers⟩
  · rintro ⟨opens, v, read, rfl⟩
    exact json?_of_ok opens read

/-- No other check gives one of these guesses. -/
theorem json?_of_check {check : Text → Option Guess} (listed : check ∈ checks)
    (answers : check t = some guess) (sure : guess ∈ confident) : json? t = some guess := by
  have apart {p : Text → Bool} {format : Format} {confidence : Confidence}
      (answers : when p format confidence t = some guess)
      (other : ⟨format, confidence⟩ ∉ confident) : json? t = some guess := by
    unfold when at answers
    split at answers
    · cases answers
      exact absurd sure other
    · cases answers
  simp only [checks, List.mem_cons, List.not_mem_nil, or_false] at listed
  rcases listed with rfl | rfl | rfl | rfl | rfl | rfl | rfl | rfl | rfl | rfl
  · exact apart answers (by decide)
  · exact answers
  all_goals exact apart answers (by decide)

theorem guess?_confident_iff (sure : guess ∈ confident) :
    guess? t = some guess ↔ 3 ≤ (trim t).length ∧
      ∃ v, parse (trim t) = .ok v ∧ v.isContainer ∧ guessOf v = guess := by
  have reads : json? (trim t) = some guess ↔
      ∃ v, parse (trim t) = .ok v ∧ v.isContainer ∧ guessOf v = guess := by
    rw [json?_eq_some_iff sure]
    constructor
    · rintro ⟨opens, v, read, same⟩
      exact ⟨v, read, (opens_iff_of_parse read).mp opens, same⟩
    · rintro ⟨v, read, container, same⟩
      exact ⟨(opens_iff_of_parse read).mpr container, v, read, same⟩
  rw [← reads, guess?]
  by_cases short : (trim t).length < 3
  · rw [if_pos (show (trim t).length < minLength from short)]
    simp [Nat.not_le_of_lt short]
  · rw [if_neg (show ¬ (trim t).length < minLength from short)]
    constructor
    · intro answers
      obtain ⟨check, listed, answers⟩ := List.exists_of_findSome?_eq_some answers
      exact ⟨Nat.le_of_not_lt short, json?_of_check listed answers sure⟩
    · rintro ⟨-, answers⟩
      have token := isToken_of_opens (exists_of_json? answers sure).1
      rw [checks, List.findSome?_cons, when, if_neg (by simp [token]), List.findSome?_cons, answers]

theorem exists_confident_iff : (∃ guess ∈ confident, guess? t = some guess) ↔
    3 ≤ (trim t).length ∧ ∃ v, parse (trim t) = .ok v ∧ v.isContainer := by
  constructor
  · rintro ⟨guess, sure, made⟩
    obtain ⟨long, v, read, container, -⟩ := (guess?_confident_iff sure).mp made
    exact ⟨long, v, read, container⟩
  · rintro ⟨long, v, read, container⟩
    have sure := guessOf_mem v
    exact ⟨guessOf v, sure, (guess?_confident_iff sure).mpr ⟨long, v, read, container, rfl⟩⟩

end

/-! ## What a guess is good for -/

theorem looksLikeSchema_of_describesValues {v : Json} (h : describesValues v = true) :
    Schema.looksLikeSchema v := by
  have typed : (v.get? "type").any present = true := ((Bool.and_eq_true _ _).mp h).1
  cases v with
  | object members =>
      apply List.any_eq_true.mpr
      refine ⟨"type", by simp [Schema.keywords], ?_⟩
      exact Option.isSome_of_any typed
  | _ => cases typed

theorem looksLikeSchema_of_guessOf {v : Json} (schema : (guessOf v).format = .jsonSchema) :
    Schema.looksLikeSchema v := by
  unfold guessOf at schema
  split at schema
  · rename_i described
    exact looksLikeSchema_of_describesValues described
  · cases schema

theorem jsonReader_of_source : ∀ converter ∈ Converter.catalogue,
    converter.source = .json ∨ converter.source = .jsonSchema →
      ∀ engine ∈ converter.engine?, engine ∈ Engine.jsonReaders := by
  decide

theorem source_of_reading {guess : Guess} (sure : guess ∈ confident) {slug : Text}
    {converter : Converter} (offered : converter ∈ Converter.reading guess.format slug) :
    converter ∈ Converter.catalogue ∧ (converter.source = .json ∨ converter.source = .jsonSchema) := by
  obtain ⟨listed, suits⟩ := List.mem_filter.mp offered
  simp only [Bool.and_eq_true, decide_eq_true_eq] at suits
  refine ⟨listed, ?_⟩
  simp only [confident, List.mem_cons, List.not_mem_nil, or_false] at sure
  rcases sure with rfl | rfl
  · exact .inl suits.1
  · exact .inr suits.1

/-- A converter that reads JSON does not fail to parse a text that reads. -/
theorem kind_ne_parse {t : Text} {v : Json} (read : parseLenient t = .ok v)
    {converter : Converter} (listed : converter ∈ Converter.catalogue)
    (source : converter.source = .json ∨ converter.source = .jsonSchema)
    {given : List (Text × Json)} {failure : Failure}
    (failed : convert converter.slug t given = .error failure) : failure.kind ≠ .parse := by
  have known := Converter.ofSlug?_slug listed
  obtain ⟨-, ⟨unknown, -⟩ | ⟨converter', engine, cause, known', runs, refused, rfl⟩⟩ :=
    convert_eq_error_iff.mp failed
  · rw [known] at unknown
    cases unknown
  · rw [known] at known'
    cases known'
    have reader := jsonReader_of_source converter listed source engine runs
    obtain ⟨e, rfl⟩ := Engine.exists_combinator_of_read reader read refused
    exact nofun

/-- A confident guess of JSON is made exactly for texts that read as an array or an object.
The text is then read leniently as the same value, it is a schema if it is taken for one, and
no converter for the format fails to parse it. -/
theorem confident_iff_parse (t : Text) :
    ((guess? t = some ⟨.json, .high⟩ ∨ guess? t = some ⟨.jsonSchema, .medium⟩) ↔
        3 ≤ (trim t).length ∧ ∃ v, parse (trim t) = .ok v ∧ v.isContainer) ∧
      ∀ guess ∈ confident, guess? t = some guess →
        ∃ v, parse (trim t) = .ok v ∧ parseLenient t = .ok v ∧
          (guess.format = .jsonSchema → Schema.looksLikeSchema v) ∧
          ∀ slug, ∀ converter ∈ Converter.reading guess.format slug, ∀ given failure,
            convert converter.slug t given = .error failure → failure.kind ≠ .parse := by
  constructor
  · rw [← exists_confident_iff]
    simp [confident]
  · intro guess sure made
    obtain ⟨-, v, read, -, rfl⟩ := (guess?_confident_iff sure).mp made
    have lenient := parseLenient_of_trim read
    refine ⟨v, read, lenient, looksLikeSchema_of_guessOf, ?_⟩
    intro slug converter offered given failure failed
    obtain ⟨listed, source⟩ := source_of_reading sure offered
    exact kind_ne_parse lenient listed source failed

/-- What looks like a link is a list all the same. -/
example : isMarkdown "[\"[a](b)\"]" ∧ guess? " [\"[a](b)\"]\n" = some ⟨.json, .high⟩ := by
  cbv

end Detect
end Recast
