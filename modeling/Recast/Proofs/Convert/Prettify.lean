import Recast.Convert
import Recast.Proofs.Json.Accepted
import Recast.Proofs.Json.Braces

/-! # One form for each value

Prettifying writes a value in one of two styles. Its output is JSON as it stands, so nothing in
it is mended, and without binary64 numbers it reads as the value again. Output that is
prettified once more is what would have come of the first text.
-/

namespace Recast.Engine

open Json

variable {t : Text} {v : Json}

/-- The style that the settings ask for. -/
def styleOf (settings : List (Text × Json)) : Style :=
  if isOn settings Converter.minify then .compact else .pretty

theorem run_jsonPrettify (given : parseLenient t = .ok v) (settings : List (Text × Json)) :
    jsonPrettify.run settings t = .ok (write (styleOf settings) 0 v) := by
  rw [run, withJson, given, styleOf]
  cases isOn settings Converter.minify <;> rfl

/-- What is written in either style reads as the value, with its keys in order, and comes out the
same in any style when it is prettified again. -/
theorem jsonPrettify_canonical (given : parseLenient t = .ok v)
    (precise : v.everywhere exactNumber = true) (settings settings' : List (Text × Json)) :
    ∃ out, jsonPrettify.run settings t = .ok out ∧ parse out = .ok v ∧
      jsonPrettify.run settings' out = jsonPrettify.run settings' t := by
  have strict := parse_write_of_parseLenient given precise (styleOf settings)
  have again : parseLenient (write (styleOf settings) 0 v) = .ok v := by
    have surrounded := parseLenient_surrounded strict (List.forall_mem_nil _) (List.forall_mem_nil _)
    rwa [List.nil_append, List.append_nil] at surrounded
  refine ⟨_, run_jsonPrettify given settings, strict, ?_⟩
  rw [run_jsonPrettify again, run_jsonPrettify given]

/-- Keys out of order, a string with a line feed, and commas to be mended. -/
def loosePairs : Text := "\"b\": [-10, \"é\\n\",], \"a\": [[]],"

def loosePairsValue : Json :=
  .object [("b", .array [.int (-10), .string "é\n"]), ("a", .array [.array []])]

theorem jsonPrettify_canonical_loosePairs :
    parseLenient loosePairs = .ok loosePairsValue ∧
      loosePairsValue.everywhere exactNumber = true ∧
      ∃ out, jsonPrettify.run [] loosePairs = .ok out ∧ parse out = .ok loosePairsValue ∧
        jsonPrettify.run [("minify", .bool true)] out =
          jsonPrettify.run [("minify", .bool true)] loosePairs :=
  have given : parseLenient loosePairs = .ok loosePairsValue := by decide +kernel
  ⟨given, rfl, jsonPrettify_canonical given rfl [] _⟩

end Recast.Engine
