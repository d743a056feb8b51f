import Recast.Proofs.Json.Reading
import Recast.Proofs.Types.Reader

/-! # Reading property names

A property name is an identifier or a string between quotes. What is written for a key reads as
the key, save that an identifier with a line feed behind it is written without quotes, where
the line feed is white space like any other.
-/

namespace Recast.Name

open TypeText

/-- The identifier that a text begins with. Here and below the rest is given from its first
character on that is not white space. -/
def readWord? : Text → Option (Text × Text)
  | [] => none
  | c :: rest =>
    if startsIdentifier c then
      some (c :: rest.takeWhile inIdentifier, Json.skipSpace (rest.dropWhile inIdentifier))
    else none

/-- The property name that a text begins with, without its quotes. -/
def readProperty? : Text → Option (Text × Text)
  | '"' :: rest =>
    match Json.readString 0 rest with
    | .ok (key, rest) => some (key, Json.skipSpace rest)
    | .error _ => none
  | t => readWord? t

/-- What the property name that is written for a key reads as. -/
def spoken (key : Text) : Text := if isIdentifier key then withoutFinalNewline key else key

/-- An identifier with one line feed behind it. -/
def LineFed (key : Text) : Prop := ∃ word, IsWord word ∧ key = word ++ ['\n']

theorem withoutFinalNewline_concat (t : Text) : withoutFinalNewline (t ++ ['\n']) = t := by
  simp [withoutFinalNewline]

theorem eq_or_eq_concat (key : Text) :
    key = withoutFinalNewline key ∨ key = withoutFinalNewline key ++ ['\n'] := by
  unfold withoutFinalNewline
  split
  · rename_i last
    exact .inr (List.dropLast_append_getLast? '\n' last).symm
  · exact .inl rfl

theorem isIdentifier_iff {key : Text} : isIdentifier key ↔ IsWord (withoutFinalNewline key) := by
  unfold isIdentifier
  cases withoutFinalNewline key with
  | nil => simp [IsWord]
  | cons c rest => simp [IsWord, and_assoc]

theorem lineFed_iff {key : Text} : LineFed key ↔ isIdentifier key ∧ key.getLast? = some '\n' := by
  constructor
  · rintro ⟨word, known, rfl⟩
    rw [isIdentifier_iff, withoutFinalNewline_concat]
    exact ⟨known, List.getLast?_concat⟩
  · rintro ⟨identifier, last⟩
    refine ⟨_, isIdentifier_iff.mp identifier, ?_⟩
    rw [withoutFinalNewline, if_pos last]
    exact (List.dropLast_append_getLast? '\n' last).symm

instance (key : Text) : Decidable (LineFed key) := decidable_of_iff _ lineFed_iff.symm

theorem spoken_eq_iff {key : Text} : spoken key = key ↔ ¬ LineFed key := by
  constructor
  · intro same fed
    have identifier := (lineFed_iff.mp fed).1
    obtain ⟨word, -, rfl⟩ := fed
    rw [spoken, if_pos identifier, withoutFinalNewline_concat] at same
    simp at same
  · intro clean
    unfold spoken
    split
    · rename_i identifier
      rcases eq_or_eq_concat key with whole | fed
      · exact whole.symm
      · exact absurd ⟨_, isIdentifier_iff.mp identifier, fed⟩ clean
    · rfl

/-! ## Reading what is written -/

theorem exists_cons_of_isWord {word : Text} (known : IsWord word) :
    ∃ c rest, word = c :: rest ∧ delimits c = false ∧ c ≠ '"' := by
  obtain ⟨c, rest, rfl, first, -⟩ := known
  refine ⟨c, rest, rfl, not_delimits_of_inIdentifier (by simp [inIdentifier, first]), ?_⟩
  rintro rfl
  exact absurd first (by decide)

theorem readWord?_append {word : Text} {c : Char} (known : IsWord word)
    (stop : inIdentifier c = false) (rest : Text) :
    readWord? (word ++ c :: rest) = some (word, Json.skipSpace (c :: rest)) := by
  obtain ⟨d, more, rfl, first, all⟩ := known
  have inside : ∀ d ∈ more, inIdentifier d := List.all_eq_true.mp all
  have ends : ∀ d, (c :: rest).head? = some d → inIdentifier d = false := by
    rintro d ⟨⟩
    exact stop
  rw [List.cons_append, readWord?, if_pos first, Text.takeWhile_run inside ends,
    Text.dropWhile_run inside ends]

theorem readProperty?_word {word : Text} (known : IsWord word) (rest : Text) :
    readProperty? (word ++ rest) = readWord? (word ++ rest) := by
  obtain ⟨c, more, rfl, -, quote⟩ := exists_cons_of_isWord known
  rw [List.cons_append, readProperty?]
  intro _ same
  exact quote (List.cons.inj same).1

theorem readProperty?_quote (key rest : Text) :
    readProperty? (Json.quote key ++ rest) = some (key, Json.skipSpace rest) := by
  rw [Json.quote, List.cons_append, List.cons_append, List.append_assoc, List.singleton_append,
    readProperty?, Json.readString_quoted]

/-- What a property name is followed by. -/
theorem sign_apart {c : Char} (sign : c = ':' ∨ c = '?') :
    inIdentifier c = false ∧ Json.isSpace c = false := by
  rcases sign with rfl | rfl <;> decide

theorem readProperty?_property {c : Char} (sign : c = ':' ∨ c = '?') (key rest : Text) :
    readProperty? (property key ++ c :: rest) = some (spoken key, c :: rest) := by
  obtain ⟨outside, solid⟩ := sign_apart sign
  have next : Json.skipSpace (c :: rest) = c :: rest := Json.skipSpace_cons solid rest
  unfold property spoken
  split
  · rename_i identifier
    have known := isIdentifier_iff.mp identifier
    rcases eq_or_eq_concat key with whole | fed
    · rw [← whole] at known ⊢
      rw [readProperty?_word known, readWord?_append known outside, next]
    · -- Up to the sign there is only the line feed, which is skipped.
      nth_rewrite 1 [fed]
      rw [List.append_assoc, readProperty?_word known, List.singleton_append,
        readWord?_append known (by decide)]
      exact congrArg (fun rest => some (_, rest)) next
  · rw [readProperty?_quote, next]

theorem exists_property (key : Text) :
    ∃ c rest, property key = c :: rest ∧ Json.isSpace c = false ∧ c ≠ '}' := by
  have start {c : Char} (apart : delimits c = false) : Json.isSpace c = false ∧ c ≠ '}' := by
    refine ⟨(Bool.or_eq_false_iff.mp apart).1, ?_⟩
    rintro rfl
    exact absurd apart (by decide)
  unfold property
  split
  · rename_i identifier
    obtain ⟨c, rest, spelled, apart, -⟩ := exists_cons_of_isWord (isIdentifier_iff.mp identifier)
    rcases eq_or_eq_concat key with whole | fed
    · exact ⟨c, rest, whole.trans spelled, start apart⟩
    · exact ⟨c, rest ++ ['\n'], by rw [fed, spelled, List.cons_append], start apart⟩
  · exact ⟨'"', _, rfl, by decide⟩

theorem skipSpace_property (key rest : Text) :
    Json.skipSpace (property key ++ rest) = property key ++ rest := by
  obtain ⟨c, more, spelled, solid, -⟩ := exists_property key
  rw [spelled]
  exact Json.skipSpace_cons solid _

end Recast.Name
