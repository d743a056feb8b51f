import Recast.Convert
import Recast.Detect
import Recast.Proofs.Codec.Wrapping
import Recast.Proofs.Json.Constant

/-! # Tokens that are well formed

A token is made of two JSON texts by spelling each in the URL-safe alphabet, with its padding
or without, and a signature of letters of that alphabet. Reading restores letters and padding,
so every such token decodes to the values of its texts, and without padding it looks like a
token as well.
-/

namespace Recast

/-- Trimming stops at a text that has no white space. -/
theorem Text.trim_surrounded {t before after : Text} (some : t ≠ [])
    (solid : ∀ c ∈ t, isBlank c = false) (blank : ∀ c ∈ before, isBlank c)
    (blank' : ∀ c ∈ after, isBlank c) : trim (before ++ t ++ after) = t := by
  have start : trimLeft (t ++ after) = t ++ after := by
    cases t with
    | nil => exact absurd rfl some
    | cons c rest => exact trimLeft_cons (solid c List.mem_cons_self) _
  have stop : trimRight t = t := by
    rcases List.eq_nil_or_concat t with rfl | ⟨rest, c, rfl⟩
    · rfl
    · rw [List.concat_eq_append] at solid ⊢
      exact trimRight_concat_of_solid (solid c (by simp)) rest
  rw [trim, List.append_assoc, trimLeft_append blank, start, trimRight_append blank', stop]

namespace Token

open Text

/-! ## The URL-safe alphabet -/

/-- The letter of the URL-safe alphabet for a plain one. -/
def urlLetter (c : Char) : Char := if c = '+' then '-' else if c = '/' then '_' else c

/-- The text spelled in the URL-safe alphabet, with all its padding. -/
def encodePart (t : Text) : Text := (Base64.encode t).map urlLetter

/-- A part that holds a text: its spelling, with or without marks of padding at the end. -/
def IsPart (t part : Text) : Prop := ∃ count, part ++ copies count '=' = encodePart t

theorem plainLetter_urlLetter {c : Char} (sign : Base64.IsSign c) : plainLetter (urlLetter c) = c := by
  have letters : ∀ n < 64, plainLetter (urlLetter (Base64.letter n)) = Base64.letter n := by
    decide
  rcases sign with rfl | ⟨n, small, rfl⟩
  · rfl
  · exact letters n small

theorem isTokenChar_urlLetter {c : Char} (sign : Base64.IsSign c) :
    urlLetter c = '=' ∨ Detect.isTokenChar (urlLetter c) = true := by
  have letters : ∀ n < 64, Detect.isTokenChar (urlLetter (Base64.letter n)) = true := by
    decide
  rcases sign with rfl | ⟨n, small, rfl⟩
  · exact .inl rfl
  · exact .inr (letters n small)

theorem solid_of_isTokenChar {c : Char} (letter : Detect.isTokenChar c = true) :
    isBlank c = false ∧ c ≠ '.' := by
  simp only [Detect.isTokenChar, Bool.or_eq_true, beq_iff_eq] at letter
  rcases letter with (plain | rfl) | rfl
  · refine ⟨isBlank_of_isWord (isWord_of_isAlphanum plain), ?_⟩
    rintro rfl
    cases plain
  · exact ⟨rfl, by decide⟩
  · exact ⟨rfl, by decide⟩

namespace IsPart

variable {t part : Text} (spelled : IsPart t part)

include spelled

theorem letter_of_mem {c : Char} (member : c ∈ part) :
    c = '=' ∨ Detect.isTokenChar c = true := by
  obtain ⟨count, same⟩ := spelled
  have known : c ∈ encodePart t := same ▸ List.mem_append_left _ member
  obtain ⟨plain, sign, rfl⟩ := List.mem_map.mp known
  exact isTokenChar_urlLetter (Base64.isSign_of_mem sign)

theorem solid {c : Char} (member : c ∈ part) : isBlank c = false ∧ c ≠ '.' := by
  rcases spelled.letter_of_mem member with rfl | letter
  · exact ⟨rfl, by decide⟩
  · exact solid_of_isTokenChar letter

/-- In the plain alphabet a part is the Base64 form of its text, as far as it goes. -/
theorem plain : ∃ count, part.map plainLetter ++ copies count '=' = Base64.encode t := by
  obtain ⟨count, same⟩ := spelled
  have back : (encodePart t).map plainLetter = Base64.encode t := by
    have letters : ∀ c ∈ Base64.encode t, (plainLetter ∘ urlLetter) c = id c := fun c member =>
      plainLetter_urlLetter (Base64.isSign_of_mem member)
    rw [encodePart, List.map_map, List.map_congr_left letters, List.map_id]
  refine ⟨count, ?_⟩
  rw [← back, ← same, List.map_append, List.map_replicate]
  rfl

theorem decode : Base64.decodePadding (part.map plainLetter) = .ok t := by
  obtain ⟨count, same⟩ := spelled.plain
  exact Base64.decodePadding_of_append same

theorem ne_nil (some : t ≠ []) : part ≠ [] := by
  obtain ⟨count, same⟩ := spelled.plain
  have letters := Base64.ne_nil_of_append some same
  rintro rfl
  exact letters rfl

end IsPart

/-! ## Reading a token -/

/-- Header, payload and signature between dots. -/
def joined (header payload signature : Text) : Text := join ['.'] [header, payload, signature]

/-- The texts, parts and signature of a token that is well formed. -/
structure Parts (H P header payload signature : Text) : Prop where
  header : IsPart H header
  payload : IsPart P payload
  some : signature ≠ []
  letters : ∀ c ∈ signature, Detect.isTokenChar c = true

/-- The value of a token. -/
def value (h p : Json) (signature : Text) : Json :=
  .object [("header", h), ("payload", p), ("signature", .string signature)]

namespace Parts

variable {H P header payload signature : Text} (parts : Parts H P header payload signature)

include parts

theorem solid {part : Text} (member : part ∈ [header, payload, signature]) {c : Char}
    (inside : c ∈ part) : isBlank c = false ∧ c ≠ '.' := by
  simp only [List.mem_cons, List.not_mem_nil, or_false] at member
  rcases member with rfl | rfl | rfl
  · exact parts.header.solid inside
  · exact parts.payload.solid inside
  · exact solid_of_isTokenChar (parts.letters c inside)

theorem splitOn_joined :
    splitOn '.' (joined header payload signature) = [header, payload, signature] := by
  apply splitOn_join (List.cons_ne_nil _ _)
  intro part member inside
  exact (parts.solid member inside).2 rfl

theorem solid_joined {c : Char} (member : c ∈ joined header payload signature) :
    isBlank c = false := by
  simp only [joined, join, List.mem_append, List.mem_singleton] at member
  rcases member with (inside | rfl) | (inside | rfl) | inside
  · exact (parts.header.solid inside).1
  · rfl
  · exact (parts.payload.solid inside).1
  · rfl
  · exact (solid_of_isTokenChar (parts.letters c inside)).1

theorem trim_joined {before after : Text} (blank : ∀ c ∈ before, isBlank c)
    (blank' : ∀ c ∈ after, isBlank c) :
    trim (before ++ joined header payload signature ++ after) = joined header payload signature := by
  apply trim_surrounded _ (fun c member => parts.solid_joined member) blank blank'
  intro empty
  have pieces := parts.splitOn_joined
  rw [empty] at pieces
  cases pieces

/-- The parts of a token are read one after the other. -/
theorem decode_eq {before after : Text} (blank : ∀ c ∈ before, isBlank c)
    (blank' : ∀ c ∈ after, isBlank c) {h p : Json} (first : Json.parse H = .ok h)
    (second : Json.parse P = .ok p) :
    decode (before ++ joined header payload signature ++ after) = .ok (value h p signature) := by
  have read {part : Part} {t letters : Text} {v : Json} (spelled : IsPart t letters)
      (known : Json.parse t = .ok v) : decodePart part letters = .ok v := by
    rw [decodePart, spelled.decode]
    show (Json.parseWith true t).mapError _ = _
    rw [Json.parseWith_of_parse known]
    rfl
  rw [decode, parts.trim_joined blank blank', parts.splitOn_joined]
  simp only [read parts.header first, read parts.payload second, ok_bind, pure_eq_ok, value]

theorem isToken_joined (some : H ≠ []) (some' : P ≠ []) (bare : '=' ∉ header)
    (bare' : '=' ∉ payload) : Detect.isToken (joined header payload signature) = true := by
  have good {t letters : Text} (some : t ≠ []) (spelled : IsPart t letters) (bare : '=' ∉ letters) :
      (!letters.isEmpty && letters.all Detect.isTokenChar) = true := by
    rw [Bool.and_eq_true, Bool.not_eq_true', List.isEmpty_eq_false_iff, List.all_eq_true]
    refine ⟨spelled.ne_nil some, ?_⟩
    intro c member
    rcases spelled.letter_of_mem member with rfl | letter
    · exact absurd member bare
    · exact letter
  have signed : (!signature.isEmpty && signature.all Detect.isTokenChar) = true := by
    rw [Bool.and_eq_true, Bool.not_eq_true', List.isEmpty_eq_false_iff, List.all_eq_true]
    exact ⟨parts.some, parts.letters⟩
  rw [Detect.isToken, parts.splitOn_joined]
  simp only [List.all_cons, List.all_nil, good some parts.header bare, good some' parts.payload bare',
    signed, List.length_cons, List.length_nil]
  rfl

theorem guess?_eq {before after : Text} (blank : ∀ c ∈ before, isBlank c)
    (blank' : ∀ c ∈ after, isBlank c) (some : H ≠ []) (some' : P ≠ []) (bare : '=' ∉ header)
    (bare' : '=' ∉ payload) :
    Detect.guess? (before ++ joined header payload signature ++ after) = .some ⟨.jwt, .high⟩ := by
  have long : ¬ (joined header payload signature).length < Detect.minLength := by
    have signed := List.length_pos_iff.mpr parts.some
    simp only [joined, join, List.length_append, List.length_singleton, Detect.minLength]
    omega
  rw [Detect.guess?, parts.trim_joined blank blank', if_neg long]
  simp only [Detect.checks, List.findSome?_cons, Detect.when,
    parts.isToken_joined some some' bare bare', if_true]

end Parts

/-! ## What becomes of it -/

theorem parse_ne_nil {t : Text} {v : Json} (h : Json.parse t = .ok v) : t ≠ [] := by
  rintro rfl
  cases h

/-- What is written of the value reads as the value, unless it is one container too deep. -/
theorem parse_pretty_value_iff {H P : Text} {h p : Json} (first : Json.parse H = .ok h)
    (second : Json.parse P = .ok p) (precise : h.everywhere Json.exactNumber = true)
    (precise' : p.everywhere Json.exactNumber = true) (signature : Text) :
    Json.parse (value h p signature).pretty = .ok (value h p signature) ↔
      h.nesting < Json.maxDepth ∧ p.nesting < Json.maxDepth := by
  have bounded : (value h p signature).everywhere Json.boundedNumber = true := by
    refine Json.everywhereMembers_iff.mpr ?_
    simp only [List.forall_mem_cons]
    exact ⟨Json.closed_bounded.parseWith first, Json.closed_bounded.parseWith second, rfl, by simp⟩
  have exact : (value h p signature).everywhere Json.exactNumber = true := by
    refine Json.everywhereMembers_iff.mpr ?_
    simp only [List.forall_mem_cons]
    exact ⟨precise, precise', rfl, by simp⟩
  have distinct : (value h p signature).Distinct := by
    have names : ["header".toList, "payload".toList, "signature".toList].Nodup := by decide
    refine ⟨names, Json.distinctMembers_iff.mpr ?_⟩
    simp only [List.forall_mem_cons]
    exact ⟨Json.closed_distinct.parseWith first, Json.closed_distinct.parseWith second, trivial,
      by simp⟩
  have depth : (value h p signature).nesting = max h.nesting p.nesting + 1 := by
    simp [value, Json.nesting, Json.nestingMembers]
  have read := Json.parse_write .pretty bounded
  rw [← Json.pretty] at read
  constructor
  · intro parsed
    rw [parsed] at read
    have shallow := (Json.isSome_reread (value h p signature) Json.maxDepth).mp (by rw [← read]; rfl)
    rw [depth] at shallow
    omega
  · rintro ⟨shallow, shallow'⟩
    rw [Json.reread_exact _ exact distinct (by rw [depth]; omega)] at read
    cases found : Json.parse (value h p signature).pretty with
    | error e =>
        rw [found] at read
        cases read
    | ok v =>
        rw [found] at read
        cases read
        rfl

/-- A token that is well formed decodes to the object of its parts. What is written of it reads as
this object, the greatest depth of reading apart, and the token is recognised where the padding
is left out. -/
theorem jwtDecode_joined {H P header payload signature before after : Text} {h p : Json}
    (parts : Parts H P header payload signature) (first : Json.parse H = .ok h)
    (second : Json.parse P = .ok p) (precise : h.everywhere Json.exactNumber = true)
    (precise' : p.everywhere Json.exactNumber = true) (blank : ∀ c ∈ before, isBlank c)
    (blank' : ∀ c ∈ after, isBlank c) (settings : List (Text × Json)) :
    ∃ out,
      Engine.jwtDecode.run settings (before ++ joined header payload signature ++ after) = .ok out ∧
      (Json.parse out =
          .ok (.object [("header", h), ("payload", p), ("signature", .string signature)]) ↔
        h.nesting < Json.maxDepth ∧ p.nesting < Json.maxDepth) ∧
      ('=' ∉ header → '=' ∉ payload →
        Detect.guess? (before ++ joined header payload signature ++ after) =
          some ⟨.jwt, .high⟩) := by
  refine ⟨(value h p signature).pretty, ?_, ?_, ?_⟩
  · rw [Engine.run, parts.decode_eq blank blank' first second]
    rfl
  · exact parse_pretty_value_iff first second precise precise' signature
  · exact parts.guess?_eq blank blank' (parse_ne_nil first) (parse_ne_nil second)

/-- Texts whose parts have a letter of the URL-safe alphabet alone, and padding left out. -/
theorem parts_sample :
    Parts "\x7b\"a\":1\x7d" "[\"ü?>\"]" "eyJhIjoxfQ" "WyLDvD8-Il0" "x_-Y" where
  header := ⟨2, by decide⟩
  payload := ⟨1, by decide⟩
  some := List.cons_ne_nil _ _
  letters := by decide

theorem jwtDecode_joined_sample :
    Parts "\x7b\"a\":1\x7d" "[\"ü?>\"]" "eyJhIjoxfQ" "WyLDvD8-Il0" "x_-Y" ∧
      ∃ out, Engine.jwtDecode.run [] " eyJhIjoxfQ.WyLDvD8-Il0.x_-Y\n" = .ok out ∧
        Json.parse out =
          .ok (.object [("header", .object [("a", .int 1)]),
            ("payload", .array [.string "ü?>"]), ("signature", .string "x_-Y")]) ∧
        Detect.guess? " eyJhIjoxfQ.WyLDvD8-Il0.x_-Y\n" = some ⟨.jwt, .high⟩ := by
  have first : Json.parse "\x7b\"a\":1\x7d" = .ok (.object [("a", .int 1)]) := by decide +kernel
  have second : Json.parse "[\"ü?>\"]" = .ok (.array [.string "ü?>"]) := by decide +kernel
  have blank : ∀ c ∈ " ".toList, isBlank c := by decide
  have blank' : ∀ c ∈ "\n".toList, isBlank c := by decide
  obtain ⟨out, decoded, read, guessed⟩ :=
    jwtDecode_joined parts_sample first second rfl rfl blank blank' []
  exact ⟨parts_sample, out, decoded, read.mpr (by decide), guessed (by decide) (by decide)⟩

end Token

end Recast
