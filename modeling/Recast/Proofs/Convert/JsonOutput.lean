import Recast.Proofs.Desk.Swap
import Recast.Proofs.Json.Accepted
import Recast.Proofs.Xml.Scalar
import Recast.Proofs.Yaml.Conversion

/-! # Output that is JSON

Four converters write JSON, each from values that it has read in its own way. No way gives
an integer with too many digits, so that the output reads as JSON again exactly when its
value has no number that is infinite or none, and no more containers inside each other than
may be opened.
-/

namespace Recast

open Text

/-! ## Elements -/

namespace Xml

theorem digitValueIn?_small {ranges : Ranges} {n d : Nat} (h : digitValueIn? ranges n = some d) :
    d < 10 := by
  induction ranges with
  | nil => cases h
  | cons range rest ih =>
      obtain ⟨low, high⟩ := range
      simp only [digitValueIn?] at h
      split at h
      · cases h
      · split at h
        · cases h
          exact Nat.mod_lt _ (by decide)
        · exact ih h

theorem digitValue?_small {c : Char} {d : Nat} (h : digitValue? c = some d) : d < 10 := by
  unfold digitValue? at h
  split at h
  · rename_i digit
    cases h
    exact Json.isDigit_small digit
  · exact digitValueIn?_small h

theorem toAsciiDigit_small {c : Char} (digit : Text.isDigit c = true) :
    (toAsciiDigit c).toNat - '0'.toNat < 10 := by
  obtain ⟨d, value⟩ := Option.isSome_iff_exists.mp digit
  have small := digitValue?_small value
  rw [toAsciiDigit, value]
  have all : ∀ d < 10, (Char.ofNat (48 + d)).toNat - '0'.toNat < 10 := by decide
  exact all d small

theorem bounded_scalar {t : Text} {v : Json} (h : scalar t = .ok v) :
    v.everywhere Json.boundedNumber = true := by
  unfold scalar at h
  split at h
  rename_i negative body _
  split at h
  · split at h
    · rename_i whole
      split at h
      · cases h
      · rename_i few
        cases h
        refine Json.bounded_int.mpr (Json.bounded_of_digits ?_ ?_ negative)
        · intro c member
          obtain ⟨d, known, rfl⟩ := List.mem_map.mp member
          exact toAsciiDigit_small (isDigit_of_isWhole whole d known)
        · rw [List.length_map]
          exact Nat.le_of_not_lt few
    · split at h
      · cases h
        rfl
      · split at h <;> cases h <;> rfl
  · split at h <;> cases h <;> rfl

theorem bounded_add {g : Gathering} {key : Text} {value : Json}
    (members : ∀ member ∈ g.members, member.2.everywhere Json.boundedNumber = true)
    (bounded : value.everywhere Json.boundedNumber = true) :
    ∀ member ∈ (g.add key value).members, member.2.everywhere Json.boundedNumber = true := by
  have put {v : Json} (here : v.everywhere Json.boundedNumber = true) :
      ∀ member ∈ Json.put key v g.members, member.2.everywhere Json.boundedNumber = true := by
    intro member known
    rcases Json.mem_put known with rfl | old
    · exact here
    · exact members member old
  unfold Gathering.add
  split
  · exact put bounded
  · rename_i items found _
    have listed := Json.everywhereItems_iff.mp (members _ (Json.mem_of_find? found))
    exact put (Json.everywhereItems_iff.mpr (by simpa [or_imp, forall_and] using ⟨listed, bounded⟩))
  · rename_i first found _
    have first := members _ (Json.mem_of_find? found)
    exact put (Json.everywhereItems_iff.mpr (by simpa using ⟨first, bounded⟩))

theorem bounded_gather {own pairs : List (Text × Json)}
    (members : ∀ member ∈ own, member.2.everywhere Json.boundedNumber = true)
    (all : ∀ pair ∈ pairs, pair.2.everywhere Json.boundedNumber = true) :
    ∀ member ∈ (gather own pairs).members, member.2.everywhere Json.boundedNumber = true := by
  induction pairs using List.reverseRecOn with
  | nil => exact members
  | append_singleton pairs pair ih =>
      rw [List.forall_mem_append, List.forall_mem_singleton] at all
      rw [gather, List.foldl_concat]
      exact bounded_add (ih all.1) all.2

theorem bounded_childValues {depth : Nat} {children : List (Element × Text)}
    {pairs : List (Text × Json)}
    (child : ∀ {e v}, Element.toJson depth e = .ok v → v.everywhere Json.boundedNumber = true)
    (h : Element.childValues depth children = .ok pairs) :
    ∀ pair ∈ pairs, pair.2.everywhere Json.boundedNumber = true := by
  induction children generalizing pairs with
  | nil =>
      cases h
      simp
  | cons first rest ih =>
      obtain ⟨e, after⟩ := first
      simp only [Element.childValues, bind_eq_ok, pure_eq_ok, Except.ok.injEq] at h
      obtain ⟨v, read, later, others, rfl⟩ := h
      exact List.forall_mem_cons.mpr ⟨child read, ih others⟩

theorem bounded_element {depth : Nat} {e : Element} {v : Json} (h : e.toJson depth = .ok v) :
    v.everywhere Json.boundedNumber = true := by
  induction depth generalizing e v with
  | zero =>
      cases e
      cases h
  | succ depth ih =>
      obtain ⟨name, attributes, text, children⟩ := e
      simp only [Element.toJson] at h
      split at h
      · exact bounded_scalar h
      · obtain ⟨pairs, read, h⟩ := bind_eq_ok.mp h
        have named : ∀ member ∈ Json.ofPairs (attributes.map fun pair =>
            (attributeKey pair.1, Json.string pair.2)),
            member.2.everywhere Json.boundedNumber = true := by
          intro member known
          obtain ⟨pair, -, rfl⟩ := List.mem_map.mp (Json.mem_ofPairs known)
          rfl
        have gathered := bounded_gather named (bounded_childValues ih read)
        split at h
        · cases h
          exact Json.everywhereMembers_iff.mpr gathered
        · obtain ⟨w, text, same⟩ := bind_eq_ok.mp h
          cases same
          refine Json.everywhereMembers_iff.mpr fun member known => ?_
          rcases Json.mem_put known with rfl | old
          · exact bounded_scalar text
          · exact gathered member old

theorem bounded_toJson {t : Text} {v : Json} (h : toJson t = .ok v) :
    v.everywhere Json.boundedNumber = true := by
  unfold toJson at h
  split at h
  · cases h
  · simp only [bind_eq_ok, pure_eq_ok, Except.ok.injEq] at h
    obtain ⟨w, read, rfl⟩ := h
    exact Json.everywhereMembers_iff.mpr (by simpa using bounded_element read)

end Xml

/-! ## Documents -/

namespace Yaml

theorem bounded_toJson {t : Text} {v : Json} (h : toJson t = .ok v) :
    v.everywhere Json.boundedNumber = true := by
  obtain ⟨w, -, read⟩ := bind_eq_ok.mp h
  exact Value.converted_bounded.toJson w read

end Yaml

/-! ## Tokens -/

namespace Token

theorem bounded_decodePart {part : Part} {t : Text} {v : Json} (h : decodePart part t = .ok v) :
    v.everywhere Json.boundedNumber = true := by
  obtain ⟨text, -, read⟩ := bind_eq_ok.mp h
  cases found : Json.parseWith true text with
  | error e =>
      rw [found] at read
      cases read
  | ok w =>
      rw [found] at read
      cases read
      exact Json.closed_bounded.parseWith found

theorem bounded_decode {t : Text} {v : Json} (h : decode t = .ok v) :
    v.everywhere Json.boundedNumber = true := by
  unfold decode at h
  split at h
  · simp only [bind_eq_ok, pure_eq_ok, Except.ok.injEq] at h
    obtain ⟨header, first, payload, second, rfl⟩ := h
    refine Json.everywhereMembers_iff.mpr ?_
    simp only [List.forall_mem_cons]
    exact ⟨bounded_decodePart first, bounded_decodePart second, rfl, by simp⟩
  · cases h

end Token

/-! ## Converters -/

/-- The ways to JSON output. -/
inductive JsonRoute where
  | prettify
  | token
  | elements
  | documents
  deriving DecidableEq, Repr

namespace JsonRoute

def slug : JsonRoute → Text
  | .prettify => "json-prettify"
  | .token => "jwt-decode"
  | .elements => "xml-to-json"
  | .documents => "yaml-to-json"

/-- The value of a text, when it has one. -/
def value? (route : JsonRoute) (t : Text) : Option Json :=
  match route with
  | .prettify => (Json.parseLenient t).toOption
  | .token => (Token.decode t).toOption
  | .elements => (Xml.toJson t).toOption
  | .documents => (Yaml.toJson t).toOption

/-- Only one way has a setting for its style. -/
def style (route : JsonRoute) (given : List (Text × Json)) : Json.Style :=
  match route with
  | .prettify =>
    let settings := Setting.resolve [Converter.minify] given
    if Engine.isOn settings Converter.minify then .compact else .pretty
  | _ => .pretty

def converter : JsonRoute → Converter
  | .prettify => Converter.catalogue[4]
  | .token => Converter.catalogue[17]
  | .elements => Converter.catalogue[19]
  | .documents => Converter.catalogue[20]

def engine : JsonRoute → Engine
  | .prettify => .jsonPrettify
  | .token => .jwtDecode
  | .elements => .xmlToJson
  | .documents => .yamlToJson

variable {route : JsonRoute} {t : Text} {given : List (Text × Json)}

theorem known (route : JsonRoute) : Converter.ofSlug? route.converter.slug = some route.converter :=
  Converter.ofSlug?_slug (by cases route <;> exact List.getElem_mem _)

theorem runs (route : JsonRoute) : route.converter.engine? = some route.engine := by
  cases route <;> rfl

theorem slug_converter (route : JsonRoute) : route.converter.slug = route.slug := by
  cases route <;> rfl

/-- An engine writes the value of the text in the style. -/
theorem run_eq (route : JsonRoute) (given : List (Text × Json)) (t : Text) :
    (route.engine.run (Setting.resolve route.converter.settings given) t).toOption =
      (route.value? t).map (Json.write (route.style given) 0) := by
  cases route with
  | prettify =>
      simp only [engine, Engine.run, Engine.withJson, value?]
      cases Json.parseLenient t with
      | error e => rfl
      | ok v =>
          have settings : prettify.converter.settings = [Converter.minify] := rfl
          rw [settings, style]
          split <;> rfl
  | token =>
      simp only [engine, Engine.run, value?]
      cases Token.decode t <;> rfl
  | elements =>
      simp only [engine, Engine.run, value?]
      cases Xml.toJson t <;> rfl
  | documents =>
      simp only [engine, Engine.run, value?]
      cases Yaml.toJson t <;> rfl

theorem exists_of_convert {out : Text} (visible : blank t = false)
    (h : convert route.slug t given = .ok out) :
    ∃ v, route.value? t = some v ∧ out = Json.write (route.style given) 0 v := by
  have run := run_eq route given t
  rw [← slug_converter, convert_eq route.known route.runs visible] at h
  cases result : route.engine.run (Setting.resolve route.converter.settings given) t with
  | error e =>
      rw [result] at h
      cases h
  | ok text =>
      rw [result] at h run
      cases h
      obtain ⟨v, read, written⟩ := Option.map_eq_some_iff.mp run.symm
      exact ⟨v, read, written.symm⟩

theorem bounded_of_value? {v : Json} (h : route.value? t = some v) :
    v.everywhere Json.boundedNumber = true := by
  have ok {ε : Type} {result : Except ε Json} (h : result.toOption = some v) : result = .ok v := by
    cases result <;> cases h
    rfl
  cases route with
  | prettify => exact Json.closed_bounded.parseLenient (ok h)
  | token => exact Token.bounded_decode (ok h)
  | elements => exact Xml.bounded_toJson (ok h)
  | documents => exact Yaml.bounded_toJson (ok h)

/-- The output reads as JSON exactly when its value is finite and not nested too deeply. -/
theorem parse_output_iff (route : JsonRoute) {t out : Text} {given : List (Text × Json)}
    (visible : blank t = false) (h : convert route.slug t given = .ok out) :
    ∃ v, route.value? t = some v ∧ out = Json.write (route.style given) 0 v ∧
      ((∃ w, Json.parse out = .ok w) ↔
        v.everywhere Json.finiteNumber = true ∧ v.nesting ≤ Json.maxDepth) := by
  obtain ⟨v, read, rfl⟩ := exists_of_convert visible h
  refine ⟨v, read, rfl, ?_⟩
  rw [← Json.isSome_reread, ← Json.parse_write _ (bounded_of_value? read)]
  cases Json.parse (Json.write (route.style given) 0 v) <;> simp [Except.toOption]

/-- A large number that is still finite. -/
theorem parse_output_large :
    blank "1e300" = false ∧ convert prettify.slug "1e300" [] = .ok "1e+300" ∧
      ∃ v, prettify.value? "1e300" = some v ∧ "1e+300" = Json.write (prettify.style []) 0 v ∧
        ((∃ w, Json.parse "1e+300" = .ok w) ↔
          v.everywhere Json.finiteNumber = true ∧ v.nesting ≤ Json.maxDepth) :=
  have output : convert prettify.slug "1e300" [] = .ok "1e+300" := by decide +kernel
  ⟨rfl, output, parse_output_iff prettify rfl output⟩

/-- What becomes of a token whose payload has no number under `a`. -/
def tokenOutput : Text :=
  Json.pretty (.object [("header", .object []), ("payload", .object [("a", .float .nan)]),
    ("signature", .string "x")])

/-- A token may hold the constant itself, and a number that is too large becomes infinite:
    both are written as words that are no JSON. -/
theorem parse_output_constants :
    (convert token.slug "e30.eyJhIjpOYU59.x" [] = .ok tokenOutput ∧
      Json.parse tokenOutput = .error (.constant "NaN")) ∧
    (convert prettify.slug "1e400" [] = .ok "Infinity" ∧
      Json.parse "Infinity" = .error (.constant "Infinity")) :=
  ⟨⟨by decide +kernel, by decide +kernel⟩, rfl, rfl⟩

end JsonRoute

end Recast
