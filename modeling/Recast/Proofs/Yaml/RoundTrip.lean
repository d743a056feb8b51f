import Recast.Proofs.Desk.Swap
import Recast.Proofs.Yaml.Ending

/-! # From JSON to a document and back

A document reads the same without its end. So a value that is read from its document as it was
comes back from what is left of it, unless that has lost more than its end.
-/

namespace Recast.Yaml

open Text Cursor Scan

variable {v : Json} {t : Text} {tokens : List Token}

/-! ## The start -/

/-- The state at the start of a text. -/
def begin (t : Text) : Scan := between ⟨t, 0, 0, 0⟩ true (-1) [] []

theorem tokensOf_eq (solid : Solid t) (printable : t.all isPrintable = true) :
    tokensOf t = Scan.run (t.length + 2) (begin t) := by
  have mark : Cursor.isAt '\uFEFF' { rest := t } = false := by
    simp only [isAt, beq_eq_false_iff_ne]
    intro first
    exact (solid _ first).2.2.1 rfl
  simp only [tokensOf, printable, mark, if_true]
  rfl

theorem printable_of_tokensOf (h : tokensOf t = .ok tokens) : t.all isPrintable = true := by
  cases printable : t.all isPrintable with
  | true => rfl
  | false => simp [tokensOf, printable] at h

theorem solid_body (precise : v.everywhere Json.exactNumber = true) (after : Text) :
    Solid (body v ++ after) := by
  cases v with
  | null => exact solid_cons (by decide) _
  | bool b => cases b <;> exact solid_cons (by decide) _
  | int n =>
      have written : Written none (ofInt n) (.scalar (ofInt n) true) := written_word (readable_ofInt n)
      simpa [body, writeValue, word, Place.gap] using written.solid after
  | float x => cases precise
  | string s =>
      obtain ⟨token, written⟩ := exists_written_folded 0 0 s
      simpa [body, writeValue, Place.gap] using written.solid after
  | array items => cases items <;> exact solid_cons (by decide) _
  | object members =>
      cases members with
      | nil => exact solid_cons (by decide) _
      | cons member members =>
          have first := solid_writeMember 0 member (writeMembers 0 members ++ after)
          simpa [body, writeValue, Place.opening] using first

/-- A state whose next step is the last one. -/
theorem run_of_arrives {s : Scan} {k : Nat} {allowed : Bool}
    (h : Arrives s [] k allowed (-1) [] tokens) (fuel : Nat) :
    Scan.run (fuel + 1) s = .ok (tokens.reverse ++ [.streamEnd]) := by
  rw [Arrives, if_pos rfl] at h
  obtain ⟨s', step, same⟩ := h
  have last : s'.tokens = .streamEnd :: tokens := same
  rw [Scan.run, step, ok_bind, if_pos (by rw [last]; rfl), last, List.reverse_cons]
  rfl

/-! ## Documents that end in a line break -/

/-- The last line break is no part of what is read. -/
theorem tokensOf_body (precise : v.everywhere Json.exactNumber = true)
    (h : tokensOf (body v ++ ['\n']) = .ok tokens) : tokensOf (body v) = .ok tokens := by
  obtain ⟨made?, yields⟩ := valueYields .root 0 0 v precise
  have printable := printable_of_tokensOf h
  have bare := solid_body precise []
  rw [List.append_nil] at bare
  rw [tokensOf_eq (solid_body precise _) printable] at h
  rw [List.all_append, Bool.and_eq_true] at printable
  rw [tokensOf_eq bare printable.1]
  have whole : Yields made? (body v).length (begin (body v ++ ['\n'])) [] 0 (-1) [] [] :=
    yields rfl ⟨rfl, rfl⟩ (.line (k := 0) solid_nil (.inl rfl))
  have cut : Yields made? (body v).length (begin (body v)) [] 0 (-1) [] [] :=
    yields (List.append_nil _).symm ⟨rfl, rfl⟩ .finish
  cases made? with
  | none => exact absurd h (Fails.run_ne_ok whole _ _)
  | some made =>
      obtain ⟨m, le, s, reaches, arrives⟩ := whole
      obtain ⟨n, le', s', reaches', arrives'⟩ := cut
      have fuel : (body v ++ ['\n']).length + 2 = m + ((body v).length + 2 - m + 1) := by
        rw [List.length_append, List.length_singleton]
        omega
      have fuel' : (body v).length + 2 = n + ((body v).length + 1 - n + 1) := by omega
      rw [fuel, reaches.run_eq, run_of_arrives arrives] at h
      rw [fuel', reaches'.run_eq, run_of_arrives arrives']
      exact h

/-! ## Plain documents -/

theorem exists_plainRuns (precise : v.everywhere Json.exactNumber = true) (plain : isPlain v = true) :
    ∃ rs, Readable rs ∧ body v = plainRuns (some 2) 0 rs := by
  have alone {w : Text} (readable : Readable [w]) (written : body v = w) :
      ∃ rs, Readable rs ∧ body v = plainRuns (some 2) 0 rs := by
    refine ⟨[w], readable, ?_⟩
    cases readable.words with
    | last word => simpa [plainRuns_word word, plainRuns] using written
  cases v with
  | null => exact alone (w := "null") (readable_word (by decide) (by decide) (by decide)) rfl
  | bool b =>
      cases b with
      | false => exact alone (w := "false") (readable_word (by decide) (by decide) (by decide)) rfl
      | true => exact alone (w := "true") (readable_word (by decide) (by decide) (by decide)) rfl
  | int n => exact alone (readable_ofInt n) (by simp [body, writeValue, word, Place.gap])
  | float x => cases precise
  | string s =>
      have known : Style.ofText s = .plain := by simpa [isPlain] using plain
      exact ⟨runs s, readable_of_plain known,
        by simp [body, writeValue, Place.gap, known, Style.write]⟩
  | array items => cases plain
  | object members => cases plain

theorem arrives_begin (solid : Solid t) : Arrives (begin t) t 0 true (-1) [] [] := by
  have resting : Resting (begin t) (-1) [] [] := ⟨rfl, rfl, rfl, rfl, rfl, nofun⟩
  exact resting.arrives_spaces (k := 0) nofun rfl solid

theorem readToken_documentEnd {index line : Nat} :
    (between ⟨"...\n", index, line, 0⟩ true (-1) [] tokens).readToken =
      .ok (between ⟨['\n'], index + 3, line, 3⟩ false (-1) [] (.documentEnd :: tokens)) := by
  rfl

theorem fold_deep (fold : Nat) (known : some 2 = some fold) : (-1 : Int) + 1 ≤ fold ∧ 0 < fold := by
  cases known
  decide

theorem tokensOf_plain {rs : List Text} (readable : Readable rs)
    (printable : (plainRuns (some 2) 0 rs).all isPrintable = true) :
    tokensOf (plainRuns (some 2) 0 rs) = .ok [.scalar rs.flatten true, .streamEnd] := by
  have written : Written (some 2) (plainRuns (some 2) 0 rs) _ := .plain readable 0
  have solid := written.solid []
  have here := arrives_begin solid
  obtain ⟨s, reaches, arrives⟩ := here.scalar written fold_deep (by decide) (by decide) .finish
  rw [List.append_nil] at solid reaches
  have fuel : (plainRuns (some 2) 0 rs).length + 2 = 1 + ((plainRuns (some 2) 0 rs).length + 1) := by
    omega
  rw [tokensOf_eq solid printable, fuel, reaches.run_eq, run_of_arrives arrives]
  rfl

/-- The end of a document makes one more token. -/
theorem tokensOf_plain_documentEnd {rs : List Text} (readable : Readable rs)
    (printable : (plainRuns (some 2) 0 rs ++ documentEnd).all isPrintable = true) :
    tokensOf (plainRuns (some 2) 0 rs ++ documentEnd) =
      .ok [.scalar rs.flatten true, .documentEnd, .streamEnd] := by
  have written : Written (some 2) (plainRuns (some 2) 0 rs) _ := .plain readable 0
  have solid := written.solid documentEnd
  obtain ⟨index, line, first⟩ := (arrives_begin solid).step_eq
    (List.append_ne_nil_of_left_ne_nil written.ne_nil _) (by decide)
  have ends : EndsWord documentEnd := .loose rfl _
  have inside : (-1 : Int) ≤ (0 : Nat) := by decide
  have free : (-1 : Int) < (0 : Nat) := by decide
  obtain ⟨c₁, passes, read⟩ := readToken_plain (c := ⟨_, index, line, 0⟩) readable fold_deep 0 ends
    inside rfl
  have past : line < c₁.line + 1 := Nat.lt_succ_of_le passes.line
  have start := first.trans (read _ _ _ _ _ (.mark (passes.rest_eq rfl) rfl))
  have dots : Solid ("...\n" : Text) := solid_cons (by decide) _
  have there : Arrives (Scan.behind ⟨plainRuns (some 2) 0 rs ++ documentEnd, index, line, 0⟩ true (-1)
      [] (between ⟨"...\n", c₁.index + 1, c₁.line + 1, 0⟩ true (-1) [] [.scalar rs.flatten true]))
      "...\n" 0 true (-1) [] [.scalar rs.flatten true] := arrives_nextLine dots past fun _ => free
  obtain ⟨index', line', second⟩ := there.step_eq (by simp) inside
  have marked := second.trans readToken_documentEnd
  have resting := resting_between ⟨['\n'], index' + 3, line', 3⟩ false (-1) []
    [.documentEnd, .scalar rs.flatten true]
  have arrives := resting.arrives_newLine (k := 0) rfl solid_nil
  have reaches : Reaches 2 (begin (plainRuns (some 2) 0 rs ++ documentEnd)) _ :=
    .step start nofun (.step marked nofun (.refl _))
  have fuel : (plainRuns (some 2) 0 rs ++ documentEnd).length + 2 =
      2 + ((plainRuns (some 2) 0 rs).length + 4 + 1) := by
    simp [documentEnd]
    omega
  rw [tokensOf_eq solid printable, fuel, reaches.run_eq, run_of_arrives arrives]
  rfl

/-! ## What is read -/

/-- A mark for the end may follow the only node or not. -/
theorem readStream_scalar (fuel : Nat) (t : Text) :
    (Node.readStream (fuel + 2)).run' { tokens := [.scalar t true, .streamEnd] } =
        .ok (some (.scalar (Plain.tag t) t 0)) ∧
      (Node.readStream (fuel + 2)).run' { tokens := [.scalar t true, .documentEnd, .streamEnd] } =
        .ok (some (.scalar (Plain.tag t) t 0)) :=
  ⟨rfl, rfl⟩

theorem ofTokens?_documentEnd (t : Text) :
    Node.ofTokens? [.scalar t true, .documentEnd, .streamEnd] =
      Node.ofTokens? [.scalar t true, .streamEnd] :=
  (readStream_scalar 18 t).2.trans (readStream_scalar 14 t).1.symm

/-- A document reads the same without its end. -/
theorem load_body {value : Value} (precise : v.everywhere Json.exactNumber = true)
    (h : load (dump v) = .ok value) : load (body v) = .ok value := by
  obtain ⟨tokens, known⟩ : ∃ tokens, tokensOf (dump v) = .ok tokens := by
    cases found : tokensOf (dump v) with
    | ok tokens => exact ⟨tokens, rfl⟩
    | error e =>
        rw [load, found] at h
        cases h
  have printable := printable_of_tokensOf known
  cases plain : isPlain v with
  | false =>
      have written : dump v = body v ++ ['\n'] := by
        rw [dump, plain]
        rfl
      rw [written] at known h
      rw [load, known] at h
      rw [load, tokensOf_body precise known]
      exact h
  | true =>
      obtain ⟨rs, readable, same⟩ := exists_plainRuns precise plain
      have written : dump v = plainRuns (some 2) 0 rs ++ documentEnd := by
        rw [dump, plain, ← same]
        rfl
      rw [written] at printable h
      have bare : (plainRuns (some 2) 0 rs).all isPrintable = true := by
        rw [List.all_append, Bool.and_eq_true] at printable
        exact printable.1
      rw [load, tokensOf_plain_documentEnd readable printable, ok_bind, ofTokens?_documentEnd] at h
      rw [same, load, tokensOf_plain readable bare, ok_bind]
      exact h

theorem toJson_body {w : Json} (precise : v.everywhere Json.exactNumber = true)
    (h : toJson (dump v) = .ok w) : toJson (body v) = .ok w := by
  cases found : load (dump v) with
  | error e =>
      rw [toJson, found] at h
      cases h
  | ok value =>
      rw [toJson, found] at h
      rw [toJson, load_body precise found]
      exact h

/-- A value that is read from its document as it was comes back from the document without its end.
    What is left of the document is just that, and the value comes back from it, unless a string
    without quotes stands last and ends in white space. -/
theorem yamlToJson_jsonToYaml {settings settings' : List (Text × Json)}
    (given : Json.parseLenient t = .ok v) (precise : v.everywhere Json.exactNumber = true)
    (inverts : toJson (dump v) = .ok v) :
    (∃ out, Engine.yamlToJson.run settings' (body v) = .ok out ∧ Json.parse out = .ok v) ∧
    Engine.jsonToYaml.run settings t = .ok (trimRight (body v)) ∧
    (trimRight (body v) = body v ↔ endsBlank (lastScalar v) = false) ∧
    (endsBlank (lastScalar v) = false →
      ∃ out, (Engine.jsonToYaml.run settings t).bind (Engine.yamlToJson.run settings') = .ok out ∧
        Json.parse out = .ok v) := by
  have back : Engine.yamlToJson.run settings' (body v) = .ok (Json.pretty v) := by
    rw [Engine.run, toJson_body precise inverts]
    rfl
  have there : Engine.jsonToYaml.run settings t = .ok (trimRight (body v)) := by
    rw [Engine.run, Engine.withJson, given, ← ofJson_eq precise]
    rfl
  have reads := Json.parse_write_of_parseLenient given precise .pretty
  refine ⟨⟨_, back, reads⟩, there, trimRight_body_iff precise, fun kept => ⟨_, ?_, reads⟩⟩
  rw [there, (trimRight_body_iff precise).mpr kept]
  exact back

/-- Two entries, the second a list whose last item is a string of two words. -/
def sampleValue : Json :=
  .object [("id", .int 1), ("tags", .array [.string "a", .string "b c"])]

def sampleText : Text := "\x7b\"id\": 1, \"tags\": [\"a\", \"b c\"]\x7d"

theorem yamlToJson_jsonToYaml_sample :
    Json.parseLenient sampleText = .ok sampleValue ∧
    sampleValue.everywhere Json.exactNumber = true ∧ toJson (dump sampleValue) = .ok sampleValue ∧
    endsBlank (lastScalar sampleValue) = false ∧
    ∃ out, (Engine.jsonToYaml.run [] sampleText).bind
      (Engine.yamlToJson.run []) = .ok out ∧ Json.parse out = .ok sampleValue :=
  have given : Json.parseLenient sampleText = .ok sampleValue := by
    decide +kernel
  have inverts : toJson (dump sampleValue) = .ok sampleValue := by decide +kernel
  have kept : endsBlank (lastScalar sampleValue) = false := by decide +kernel
  ⟨given, rfl, inverts, kept, (yamlToJson_jsonToYaml given rfl inverts).2.2.2 kept⟩

/-- A string may end in a space that is no blank for documents. It is read from its document as
    it was, but the space is cut from it together with the end. -/
theorem yamlToJson_jsonToYaml_noBreakSpace :
    Json.parseLenient "\"a\u00a0\"" = .ok (.string "a\u00a0") ∧
    toJson (dump (.string "a\u00a0")) = .ok (.string "a\u00a0") ∧
    Engine.jsonToYaml.run [] "\"a\u00a0\"" = .ok "a" ∧
    (Engine.jsonToYaml.run [] "\"a\u00a0\"").bind (Engine.yamlToJson.run []) = .ok "\"a\"" ∧
    Json.parse "\"a\"" = .ok (.string "a") ∧ Json.string "a" ≠ .string "a\u00a0" :=
  ⟨by decide +kernel, by decide +kernel, by decide +kernel, by decide +kernel, by decide +kernel,
    by decide⟩

end Recast.Yaml
