import Recast.Proofs.Desk.Independence
import Recast.Proofs.Schema.Failure

/-! # How conversions fail

A failure is traced back from the kind that is reported to the engine that gave up. What a
kind says about the converter holds of all texts and settings, and the desk shows a failure
and nothing else with an empty output and a status.
-/

namespace Recast

/-! ## Engines and what they refuse -/

namespace Engine

/-- The engines that read lenient JSON. -/
def jsonReaders : List Engine :=
  [.jsonToTypeScript, .jsonToYaml, .jsonPrettify, .jsonToZod, .schemaToTypeScript]

/-- The engines that read data in one of the structured formats. -/
def readers : List Engine := jsonReaders ++ [.base64Decode, .urlDecode, .xmlToJson, .yamlToJson]

end Engine

/-- The engines that may give up in this way. -/
def Refusal.engines : Refusal → List Engine
  | .json _ => Engine.jsonReaders
  | .base64 _ => [.base64Decode]
  | .percent _ => [.urlDecode]
  | .token _ => [.jwtDecode]
  | .combinator _ => [.schemaToTypeScript]
  | .xml _ => [.xmlToJson]
  | .yaml _ => [.yamlToJson]

namespace Engine

variable {engine : Engine} {settings : List (Text × Json)} {t : Text} {cause : Refusal}

theorem withJson_eq_error {use : Json → Except Refusal Text} :
    withJson t use = .error cause ↔
      (∃ e, Json.parseLenient t = .error e ∧ Refusal.json e = cause) ∨
        ∃ v, Json.parseLenient t = .ok v ∧ use v = .error cause := by
  rw [withJson, bind_eq_error, mapError_eq_error]
  cases Json.parseLenient t <;> simp [Except.mapError]

/-- What an engine refuses tells which engines it can have been. -/
theorem mem_engines (h : engine.run settings t = .error cause) : engine ∈ cause.engines := by
  cases engine with
  | jsonToTypeScript | jsonToYaml | jsonPrettify | jsonToZod =>
      rcases withJson_eq_error.mp h with ⟨e, -, rfl⟩ | ⟨v, -, none⟩
      · simp [Refusal.engines, jsonReaders]
      · cases none
  | schemaToTypeScript =>
      rcases withJson_eq_error.mp h with ⟨e, -, rfl⟩ | ⟨v, -, failed⟩
      · simp [Refusal.engines, jsonReaders]
      · obtain ⟨e, -, rfl⟩ := mapError_eq_error.mp failed
        exact List.mem_singleton_self _
  | base64Decode | urlDecode | jwtDecode | xmlToJson | yamlToJson =>
      obtain ⟨e, -, rfl⟩ := mapError_eq_error.mp h
      exact List.mem_singleton_self _
  | _ => cases h

/-- Once its text is read, an engine that reads JSON gives up at a combinator at most. -/
theorem exists_combinator_of_read {v : Json} (reader : engine ∈ jsonReaders)
    (read : Json.parseLenient t = .ok v) (h : engine.run settings t = .error cause) :
    ∃ e, cause = .combinator e := by
  have given {use : Json → Except Refusal Text} (h : withJson t use = .error cause) :
      use v = .error cause := by
    rcases withJson_eq_error.mp h with ⟨e, failed, -⟩ | ⟨w, read', failed⟩
    · rw [read] at failed
      cases failed
    · rw [read] at read'
      cases read'
      exact failed
  simp only [jsonReaders, List.mem_cons, List.not_mem_nil, or_false] at reader
  rcases reader with rfl | rfl | rfl | rfl | rfl
  · cases given h
  · cases given h
  · cases given h
  · cases given h
  · obtain ⟨e, -, rfl⟩ := mapError_eq_error.mp (given h)
    exact ⟨e, rfl⟩

/-- A combinator without its list is refused only where schemas are read. -/
theorem keyword_of_run {e : MalformedCombinator}
    (h : engine.run settings t = .error (.combinator e)) : e.keyword ∈ Schema.combinators := by
  obtain rfl := List.mem_singleton.mp (mem_engines h)
  rcases withJson_eq_error.mp h with ⟨e, -, other⟩ | ⟨v, -, failed⟩
  · cases other
  · obtain ⟨e, failed, same⟩ := mapError_eq_error.mp failed
    cases same
    exact Schema.keyword_of_code failed

end Engine

namespace Refusal

variable {cause : Refusal}

theorem engines_subset_readers (h : cause.kind? = some .parse) :
    ∀ engine ∈ cause.engines, engine ∈ Engine.readers := by
  cases cause with
  | token e => cases e <;> cases h
  | combinator e => cases h
  | _ => simp [engines, Engine.readers, Engine.jsonReaders]

theorem exists_token (h : cause.kind? = some .malformedToken) : ∃ e, cause = .token e := by
  cases cause with
  | token e => exact ⟨e, rfl⟩
  | json e | xml e | yaml e => cases e <;> cases h
  | _ => cases h

theorem exists_combinator (h : cause.kind? = some .unknownEngine) :
    ∃ e, cause = .combinator e := by
  cases cause with
  | combinator e => exact ⟨e, rfl⟩
  | json e | token e | xml e | yaml e => cases e <;> cases h
  | _ => cases h

theorem kind?_ne_unsupportedMode : cause.kind? ≠ some .unsupportedMode := by
  intro h
  cases cause with
  | json e | token e | xml e | yaml e => cases e <;> cases h
  | _ => cases h

end Refusal

/-! ## Converters and their engines -/

namespace Converter

/-- The formats of data that are parsed before anything is made of them. -/
def parsed : List Format := [.json, .jsonSchema, .yaml, .xml, .base64, .urlEncoded]

theorem source_of_reader : ∀ engine ∈ Engine.readers, ∀ converter ∈ catalogue,
    converter.engine? = some engine → converter.source ∈ parsed := by
  decide

theorem slug_of_jwtDecode : ∀ converter ∈ catalogue,
    converter.engine? = some .jwtDecode → converter.slug = "jwt-decode" := by
  decide

theorem slug_of_schemaToTypeScript : ∀ converter ∈ catalogue,
    converter.engine? = some .schemaToTypeScript →
      converter.slug = "json-schema-to-typescript" := by
  decide

end Converter

section

variable {slug t : Text} {given : List (Text × Json)} {failure : Failure}

theorem convert_eq_error_iff : convert slug t given = .error failure ↔
    Text.blank t = false ∧
      (Converter.ofSlug? slug = none ∧ .unsupported slug = failure ∨
        ∃ converter engine cause, Converter.ofSlug? slug = some converter ∧
          converter.engine? = some engine ∧
          engine.run (Setting.resolve converter.settings given) t = .error cause ∧
          .refused converter.title cause = failure) := by
  rw [convert]
  cases Text.blank t with
  | true => simp
  | false =>
      cases Converter.ofSlug? slug with
      | none => simp
      | some converter =>
          cases runs : converter.engine? with
          | none => simp [runs]
          | some engine => simp [runs, mapError_eq_error]

/-- Only a converter that is not known is unsupported. -/
theorem kind_eq_unsupportedMode_iff (h : convert slug t given = .error failure) :
    failure.kind = .unsupportedMode ↔ Converter.ofSlug? slug = none := by
  obtain ⟨-, ⟨unknown, rfl⟩ | ⟨converter, engine, cause, known, -, -, rfl⟩⟩ :=
    convert_eq_error_iff.mp h
  · simp only [unknown, Failure.kind]
  · rw [known]
    constructor
    · intro kind
      rw [Failure.kind] at kind
      cases foreseen : cause.kind? with
      | none =>
          rw [foreseen] at kind
          cases kind
      | some kind' =>
          rw [foreseen, Option.getD_some] at kind
          exact absurd (kind ▸ foreseen) cause.kind?_ne_unsupportedMode
    · intro none
      cases none

/-- What each kind of failure says about the converter that was asked for and about the
message. -/
structure Explained (slug : Text) (failure : Failure) : Prop where
  unsupportedMode : failure.kind = .unsupportedMode →
    Converter.ofSlug? slug = none ∧
      failure.message = ("Unsupported transform mode: " : Text) ++ slug
  malformedToken : failure.kind = .malformedToken → slug = "jwt-decode"
  parse : failure.kind = .parse → ∃ converter ∈ Converter.catalogue,
    converter.slug = slug ∧ converter.source ∈ Converter.parsed
  unknownEngine : failure.kind = .unknownEngine → ∃ converter ∈ Converter.catalogue,
    converter.slug = slug ∧
      (converter.title ++ (" failed: " : Text) <+: failure.message ∨
        slug = "json-schema-to-typescript" ∧ ∃ keyword ∈ Schema.combinators,
          failure.message = MalformedCombinator.message ⟨keyword⟩)

theorem explained_unsupported (unknown : Converter.ofSlug? slug = none) :
    Explained slug (.unsupported slug) where
  unsupportedMode _ := ⟨unknown, rfl⟩
  malformedToken kind := nomatch kind
  parse kind := nomatch kind
  unknownEngine kind := nomatch kind

theorem explained_refused {converter : Converter} {engine : Engine} {cause : Refusal}
    {settings : List (Text × Json)} (listed : converter ∈ Converter.catalogue)
    (runs : converter.engine? = some engine) (refused : engine.run settings t = .error cause) :
    Explained converter.slug (.refused converter.title cause) := by
  have member := Engine.mem_engines refused
  cases foreseen : cause.kind? with
  | none =>
      have kind : (Failure.refused converter.title cause).kind = .unknownEngine := by
        rw [Failure.kind, foreseen, Option.getD_none]
      have message : (Failure.refused converter.title cause).message =
          converter.title ++ " failed: " ++ cause.message := by
        have unforeseen : ¬ cause.kind?.isSome = true := by simp [foreseen]
        exact if_neg unforeseen
      constructor <;> rw [kind]
      · exact nofun
      · exact nofun
      · exact nofun
      · intro _
        refine ⟨converter, listed, rfl, .inl ?_⟩
        rw [message]
        exact List.prefix_append _ _
  | some kind =>
      have kind' : (Failure.refused converter.title cause).kind = kind := by
        rw [Failure.kind, foreseen, Option.getD_some]
      constructor <;> rw [kind'] <;> rintro rfl
      · exact absurd foreseen cause.kind?_ne_unsupportedMode
      · obtain ⟨e, rfl⟩ := Refusal.exists_token foreseen
        obtain rfl := List.mem_singleton.mp member
        exact Converter.slug_of_jwtDecode converter listed runs
      · have reads := Refusal.engines_subset_readers foreseen engine member
        exact ⟨converter, listed, rfl,
          Converter.source_of_reader engine reads converter listed runs⟩
      · obtain ⟨e, rfl⟩ := Refusal.exists_combinator foreseen
        have named := Engine.keyword_of_run refused
        obtain rfl := List.mem_singleton.mp member
        exact ⟨converter, listed, rfl, .inr
          ⟨Converter.slug_of_schemaToTypeScript converter listed runs, e.keyword, named, rfl⟩⟩

theorem explained_of_convert (h : convert slug t given = .error failure) :
    Explained slug failure := by
  obtain ⟨-, ⟨unknown, rfl⟩ | ⟨converter, engine, cause, known, runs, refused, rfl⟩⟩ :=
    convert_eq_error_iff.mp h
  · exact explained_unsupported unknown
  · obtain ⟨listed, rfl⟩ := Converter.mem_of_ofSlug? known
    exact explained_refused listed runs refused

end

/-! ## What is shown -/

namespace Desk

/-- The three things that can come of a conversion. -/
inductive Answer
  | converted
  | nothing
  | failed

/-- What is shown, output and status, is an answer of this sort. -/
def Answer.Shown (slug t : Text) (svgo minify : Bool) (answer : Answer) : Prop :=
  let shown := outcome slug t svgo minify
  match answer with
  | .converted => shown.output ≠ [] ∧ shown.status = "Converted with " ++ titleOf slug ++ ['.']
  | .nothing => shown.output = [] ∧ shown.status = []
  | .failed => shown.output = [] ∧ ∃ failure,
      convert slug t [("svgo", .bool svgo), ("minify", .bool minify)] = .error failure ∧
        shown.status = "Error: " ++ failure.message

section

variable {slug t : Text} {svgo minify : Bool}

theorem exists_shown : ∃ answer, Answer.Shown slug t svgo minify answer := by
  cases result : convert slug t [("svgo", .bool svgo), ("minify", .bool minify)] with
  | error failure =>
      have shown : outcome slug t svgo minify =
          { output := [], status := "Error: " ++ failure.message } := by
        rw [outcome, result]
      exact ⟨.failed, by rw [shown], failure, result, by rw [shown]⟩
  | ok output =>
      cases output with
      | nil =>
          have shown : outcome slug t svgo minify = { output := [], status := [] } := by
            rw [outcome, result]
            rfl
          exact ⟨.nothing, by rw [shown], by rw [shown]⟩
      | cons c rest =>
          have shown : outcome slug t svgo minify =
              { output := c :: rest, status := "Converted with " ++ titleOf slug ++ ['.'] } := by
            rw [outcome, result]
            rfl
          exact ⟨.converted, by simp [shown], by rw [shown]⟩

/-- The sort of an answer, as it can be told from output and status alone. -/
def Answer.ofOutcome (shown : Outcome) : Answer :=
  if shown.output ≠ [] then .converted else if shown.status = [] then .nothing else .failed

theorem Answer.Shown.eq_ofOutcome {answer : Answer} (h : answer.Shown slug t svgo minify) :
    answer = .ofOutcome (outcome slug t svgo minify) := by
  cases answer with
  | converted => exact (if_pos h.1).symm
  | nothing =>
      obtain ⟨output, status⟩ := h
      rw [ofOutcome, if_neg (not_not.mpr output), if_pos status]
  | failed =>
      obtain ⟨output, failure, -, status⟩ := h
      have spoken : (outcome slug t svgo minify).status ≠ [] := by
        rw [status]
        exact List.cons_ne_nil _ _
      rw [ofOutcome, if_neg (not_not.mpr output), if_neg spoken]

theorem exists_unique_shown : ∃! answer, Answer.Shown slug t svgo minify answer := by
  obtain ⟨answer, shown⟩ : ∃ answer, Answer.Shown slug t svgo minify answer := exists_shown
  exact ⟨answer, shown, fun _ other => other.eq_ofOutcome.trans shown.eq_ofOutcome.symm⟩

end

end Desk

/-- A conversion fails as unsupported exactly when there is text and no converter has the
slug; every failure is explained by its kind; and the desk shows one of three answers. -/
theorem convert_error_taxonomy (slug t : Text) (given : List (Text × Json)) (svgo minify : Bool) :
    (∀ failure, convert slug t given = .error failure → Explained slug failure) ∧
      ((∃ failure, convert slug t given = .error failure ∧ failure.kind = .unsupportedMode) ↔
        Text.blank t = false ∧ ∀ converter ∈ Converter.catalogue, converter.slug ≠ slug) ∧
      ∃! answer, Desk.Answer.Shown slug t svgo minify answer := by
  refine ⟨fun _ => explained_of_convert, ?_, Desk.exists_unique_shown⟩
  rw [← Converter.ofSlug?_eq_none_iff]
  constructor
  · rintro ⟨failure, failed, kind⟩
    exact ⟨(convert_eq_error_iff.mp failed).1, (kind_eq_unsupportedMode_iff failed).mp kind⟩
  · rintro ⟨visible, unknown⟩
    exact ⟨_, convert_eq_error_iff.mpr ⟨visible, .inl ⟨unknown, rfl⟩⟩, rfl⟩

end Recast
