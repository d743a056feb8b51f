import Recast.Proofs.Json.Repair

/-! # Outer braces

A text that reads strictly is read leniently as the same value, whatever white space is around
it. When the braces of an object are left out, what remains is refused as it is and also with
its commas mended, since a colon follows the first key. So the braces are put back, and strings
inside never come to be mended.
-/

namespace Recast.Json

open Text

/-! ## White space around a text -/

theorem parse_document_iff {d : Document} {v : Json} :
    parse d.text = .ok v ↔ d.read maxDepth = .ok v := by
  rw [← text_alone]
  exact ⟨read_of_parse_source (s := alone d), parse_source_of_ok (s := alone d)⟩

/-- A text that reads strictly is a document between white space. -/
theorem exists_document_of_parse {t : Text} {v : Json} (accepted : parse t = .ok v) :
    ∃ d : Document, parse d.plain.text = .ok v ∧ ∀ {before after : Text},
      (∀ c ∈ before, isBlank c) → (∀ c ∈ after, isBlank c) →
        trim (before ++ t ++ after) = d.plain.text := by
  obtain ⟨s, rfl⟩ := exists_source accepted
  refine ⟨s.document, parse_document_iff.mpr (read_of_parse_source accepted), ?_⟩
  intro before after blank blank'
  have spelled : before ++ s.plain.text ++ after =
      (before ++ s.before.text) ++ (s.document.plain.text ++ (s.after.text ++ after)) := by
    simp [Source.plain, Source.text]
  rw [spelled]
  exact trim_text_document s.document.plain
    (List.forall_mem_append.mpr ⟨blank, s.before.blank⟩)
    (List.forall_mem_append.mpr ⟨s.after.blank, blank'⟩)

theorem parseLenient_of_trim {t : Text} {v : Json} (accepted : parse (trim t) = .ok v) :
    parseLenient t = .ok v := by
  simp only [parseLenient, candidates, firstReadable, accepted]

theorem parseLenient_surrounded {t before after : Text} {v : Json} (accepted : parse t = .ok v)
    (blank : ∀ c ∈ before, isBlank c) (blank' : ∀ c ∈ after, isBlank c) :
    parseLenient (before ++ t ++ after) = .ok v := by
  obtain ⟨d, read, trimmed⟩ := exists_document_of_parse accepted
  apply parseLenient_of_trim
  rw [trimmed blank blank', read]

/-! ## Members without braces -/

/-- After a key stands a colon, so a key is no whole text. -/
theorem parse_keyText (key : Quoted) (colon : Gap) (rest : Text) :
    ∃ place, parse (keyText key colon ++ rest) = .error (.syntaxError .extraData place) := by
  have spelled : keyText key colon ++ rest =
      '"' :: (key.raw ++ '"' :: (colon.before.text ++ ':' :: (colon.after.text ++ rest))) := by
    simp [keyText, Gap.text]
  have start : skipSpace (keyText key colon ++ rest) = keyText key colon ++ rest := by
    rw [spelled, skipSpace_cons rfl]
  have plain : (keyText key colon ++ rest).head? ≠ some '\uFEFF' := by
    rw [spelled]
    simp
  rw [parse_eq_readAll plain, readAll, start]
  generalize 2 * (keyText key colon ++ rest).length + 1 = fuel
  rw [spelled, readValue_string, ok_bind]
  simp only [skipSpace_append, skipSpace_cons (c := ':') rfl]
  exact ⟨_, rfl⟩

theorem Members.exists_keyText : (members : Members) →
    ∃ key colon rest, members.text = keyText key colon ++ rest
  | .last key colon value ending => ⟨key, colon, value.text ++ ending.text, by
      rw [Members.text, List.append_assoc]⟩
  | .more key colon value comma rest => ⟨key, colon, value.text ++ comma.text ',' ++ rest.text, by
      simp only [Members.text, List.append_assoc]⟩

/-- The members without what stands before the closing brace. -/
def Members.snug : Members → Members
  | .last key colon value _ => .last key colon value ⟨noSpace, none⟩
  | .more key colon value comma rest => .more key colon value comma rest.snug

theorem Members.read_snug : (members : Members) → (depth : Nat) →
    members.plain.snug.read depth = members.plain.read depth
  | .last .., depth => rfl
  | .more _ _ _ _ rest, depth => by
      simp only [Members.plain, Members.snug, Members.read, rest.read_snug]

theorem Members.exists_snug_append : (members : Members) →
    ∃ space : Space, members.plain.text = members.plain.snug.text ++ space.text
  | .last key colon value ending => ⟨ending.space, by
      simp [Members.plain, Members.snug, Members.text, Ending.plain, Ending.text, noSpace]⟩
  | .more key colon value comma rest => by
      obtain ⟨space, spelled⟩ := rest.exists_snug_append
      exact ⟨space, by simp [Members.plain, Members.snug, Members.text, spelled]⟩

/-- The members end with the last token of their last value. -/
theorem Members.trimRight_snug (before : Text) : (members : Members) →
    trimRight (before ++ members.snug.text) = before ++ members.snug.text
  | .last key colon value _ => by
      have some : value.text ≠ [] := List.length_pos_iff.mp value.length_pos
      have spelled : before ++ (Members.last key colon value ⟨noSpace, none⟩).text =
          (before ++ keyText key colon) ++ value.text := by
        simp [Members.text, Ending.text, noSpace]
      rw [Members.snug, spelled, trimRight_append_kept some value.trimRight_text]
  | .more key colon value comma rest => by
      have spelled : before ++ (Members.more key colon value comma rest.snug).text =
          (before ++ (keyText key colon ++ value.text ++ comma.text ',')) ++ rest.snug.text := by
        simp [Members.text]
      rw [Members.snug, spelled, rest.trimRight_snug]

theorem trim_text_members (members : Members) (space : Space) :
    trim (space.text ++ members.plain.text) = members.plain.snug.text := by
  obtain ⟨closing, spelled⟩ := members.exists_snug_append
  obtain ⟨rest, quoted⟩ := members.plain.snug.exists_text
  have kept := members.plain.trimRight_snug []
  rw [List.nil_append] at kept
  have start : trimLeft (members.plain.snug.text ++ closing.text) =
      members.plain.snug.text ++ closing.text := by
    rw [quoted, List.cons_append, trimLeft_cons rfl]
  rw [trim, trimLeft_append space.blank, spelled, start, trimRight_append closing.blank, kept]

/-! ## Braces that are put back -/

theorem firstReadable_of_fault {t : Text} {fault : Fault} {place : Place}
    (refused : parse t = .error (.syntaxError fault place)) (first? : Option Error)
    (rest : List Text) :
    firstReadable first? (t :: rest) =
      firstReadable (first?.or (some (.syntaxError fault place))) rest := by
  rw [firstReadable, refused]

/-- Neither as they are nor with their commas mended do members read as a value. -/
theorem parseLenient_members {members : Members} {space : Space} {v : Json}
    (accepted : parse (brace members.plain.snug.text) = .ok v) :
    parseLenient (space.text ++ members.plain.text) = .ok v := by
  obtain ⟨key, colon, rest, spelled⟩ := members.plain.snug.exists_keyText
  obtain ⟨place, bare⟩ := parse_keyText key colon rest
  obtain ⟨place', mended⟩ := parse_keyText key.mend colon (dropTrailingCommas rest)
  rw [← spelled] at bare
  rw [← dropTrailingCommas_keyText, ← spelled] at mended
  rw [parseLenient, candidates, trim_text_members, firstReadable_of_fault bare,
    firstReadable_of_fault mended, firstReadable, accepted]

theorem parseLenient_blank {space : Space} : parseLenient space.text = .ok (.object []) := by
  have empty : trim space.text = [] := by
    have trimmed := trimLeft_append space.blank []
    rw [List.append_nil] at trimmed
    rw [trim, trimmed]
    rfl
  rw [parseLenient, candidates, empty]
  rfl

/-- A document that starts and ends with braces is an object, and reads the same without them. -/
theorem parseLenient_of_brace {d : Document} {bare : Text} {v : Json}
    (spelled : d.plain.text = brace bare) (read : d.plain.read maxDepth = .ok v) :
    parseLenient bare = .ok v := by
  cases d with
  | atom a =>
      have start : a.text = brace bare := spelled
      have first : isAtomic '{' = true := a.atomic '{' (by simp [start, brace])
      cases first
  | string q | emptyArray space | array space items => cases (List.cons.inj spelled).1
  | emptyObject space =>
      have inside : space.text = bare := List.append_cancel_right (List.cons.inj spelled).2
      cases read
      rw [← inside, parseLenient_blank]
  | object space members =>
      have inside : space.text ++ members.plain.text = bare :=
        List.append_cancel_right (List.cons.inj spelled).2
      have close : brace members.plain.snug.text =
          (Document.object noSpace members.plain.snug).text := by
        simp [brace, Document.text, noSpace]
      rw [← inside]
      apply parseLenient_members
      rw [close, parse_document_iff, ← read]
      simp only [Document.plain, Document.read, members.read_snug]

theorem trim_brace {before after : Text} (blank : ∀ c ∈ before, isBlank c)
    (blank' : ∀ c ∈ after, isBlank c) (bare : Text) :
    trim (before ++ brace bare ++ after) = brace bare := by
  have start : trimLeft (brace bare ++ after) = brace bare ++ after := trimLeft_cons rfl _
  rw [trim, List.append_assoc, trimLeft_append blank, start, trimRight_append blank']
  exact trimRight_concat_of_solid rfl ('{' :: bare)

/-- A text that reads strictly reads as the same value between any white space, and so it does
without its braces when it is an object. -/
theorem parseLenient_extends_parse {t : Text} {v : Json} (accepted : parse t = .ok v) :
    (∀ before after : Text, (∀ c ∈ before, isBlank c) → (∀ c ∈ after, isBlank c) →
      parseLenient (before ++ t ++ after) = .ok v) ∧
    ∀ before bare after : Text, (∀ c ∈ before, isSpace c) → (∀ c ∈ after, isSpace c) →
      t = before ++ brace bare ++ after → parseLenient bare = .ok v := by
  refine ⟨fun before after blank blank' => parseLenient_surrounded accepted blank blank', ?_⟩
  rintro before bare after space space' rfl
  obtain ⟨d, read, trimmed⟩ := exists_document_of_parse accepted
  apply parseLenient_of_brace _ (parse_document_iff.mp read)
  have whole := @trimmed [] [] (List.forall_mem_nil _) (List.forall_mem_nil _)
  rw [List.nil_append, List.append_nil] at whole
  rw [← whole, trim_brace (Space.blank ⟨before, space⟩) (Space.blank ⟨after, space'⟩)]

/-- A key and a string that both look as if a comma had to be dropped in them. -/
def commaPair : Text := " \",]\": \", \x7d\""

def commaPairValue : Json := .object [(",]", .string ", \x7d")]

theorem parseLenient_extends_parse_commaPair :
    parse (brace commaPair ++ ['\n']) = .ok commaPairValue ∧
      parseLenient (['\u2003'] ++ (brace commaPair ++ ['\n']) ++ ['\u00a0']) = .ok commaPairValue ∧
        parseLenient commaPair = .ok commaPairValue := by
  have accepted : parse (brace commaPair ++ ['\n']) = .ok commaPairValue := by cbv
  obtain ⟨surrounded, unbraced⟩ := parseLenient_extends_parse accepted
  refine ⟨accepted, surrounded ['\u2003'] ['\u00a0'] (by decide) (by decide), ?_⟩
  exact unbraced [] commaPair ['\n'] (by decide) (by decide) rfl

end Recast.Json
