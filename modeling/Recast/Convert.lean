import Recast.Blocks.Indent
import Recast.Catalogue.Converter
import Recast.Codec.Percent
import Recast.Codec.Rot13
import Recast.Codec.Token
import Recast.Json.Lenient
import Recast.Markdown.Page
import Recast.Markup.Attribute
import Recast.TypeExpr.Schema
import Recast.Validator
import Recast.Xml.Value
import Recast.Yaml.Printer
import Recast.Yaml.Reader

/-! # Converting texts

One entry point for all converters. Blank input gives empty output, whatever the
converter; every failure is one of four kinds.
-/

namespace Recast

/-- Why an engine gives up on a text. -/
inductive Refusal where
  | json (e : Json.Error)
  | base64 (e : Base64.Error)
  | percent (e : Percent.Error)
  | token (e : Token.Error)
  | combinator (e : MalformedCombinator)
  | xml (e : Xml.Error)
  | yaml (e : Yaml.Error)
  deriving DecidableEq, Repr

/-- The kinds of failure. -/
inductive FailureKind where
  /-- The input is no valid, and no mendable, data. -/
  | parse
  /-- No converter has the slug. -/
  | unsupportedMode
  /-- A token does not have the right shape. -/
  | malformedToken
  /-- An engine failed for another reason. -/
  | unknownEngine
  deriving DecidableEq, Repr

namespace Refusal

/-- The kind of a refusal that is foreseen; the others have none. -/
def kind? : Refusal → Option FailureKind
  | .json (.tooDeep _) => none
  | .json _ | .base64 _ | .percent _ => some .parse
  | .token (.tooDeep _) => none
  | .token _ => some .malformedToken
  | .combinator _ => some .unknownEngine
  | .xml .malformed => some .parse
  | .xml _ => none
  | .yaml .malformed => some .parse
  | .yaml _ => none

def message : Refusal → Text
  | .json (.tooDeep container) => (Json.Error.tooDeep container).message
  | .json e => "Invalid JSON input: " ++ e.message
  | .base64 e => "Invalid Base64 input: " ++ e.message
  | .percent e => "Invalid URL-encoded input: " ++ e.message
  | .token e => e.message
  | .combinator e => e.message
  | .xml e => e.message
  | .yaml e => e.message

end Refusal

/-- Why a conversion fails. -/
inductive Failure where
  | unsupported (slug : Text)
  | refused (title : Text) (cause : Refusal)
  deriving DecidableEq, Repr

namespace Failure

def kind : Failure → FailureKind
  | .unsupported _ => .unsupportedMode
  | .refused _ cause => cause.kind?.getD .unknownEngine

/-- A cause that is not foreseen is reported with the converter's title in front. -/
def message : Failure → Text
  | .unsupported slug => "Unsupported transform mode: " ++ slug
  | .refused title cause =>
    if cause.kind?.isSome then cause.message else title ++ " failed: " ++ cause.message

end Failure

namespace Engine

/-- Read lenient JSON and go on with its value. -/
def withJson (t : Text) (use : Json → Except Refusal Text) : Except Refusal Text := do
  let v ← (Json.parseLenient t).mapError .json
  use v

def isOn (settings : List (Text × Json)) (setting : Setting) : Bool :=
  (Json.find? setting.key settings).any Json.truth

/-- Run an engine on a text, with resolved settings. -/
def run (engine : Engine) (settings : List (Text × Json)) (t : Text) : Except Refusal Text :=
  match engine with
  | .svgToJsx => .ok (Markup.drawingToComponent (isOn settings Converter.svgo) t)
  | .htmlToJsx => .ok (Markup.pageToComponent t)
  | .jsonToTypeScript => withJson t fun v => .ok (TypeExpr.codeOfSample v)
  | .jsonToYaml => withJson t fun v => .ok (Yaml.ofJson v)
  | .jsonPrettify => withJson t fun v =>
    .ok (if isOn settings Converter.minify then v.compact else v.pretty)
  | .jsonToZod => withJson t fun v => .ok (Validator.codeOfSample v)
  | .schemaToTypeScript => withJson t fun v => (Schema.code v).mapError .combinator
  | .pythonToJavaScript => .ok (Blocks.braceText t)
  | .javaScriptToPython => .ok (Blocks.indentText t)
  | .base64Encode => .ok (Base64.encode t)
  | .base64Decode => (Base64.decode t).mapError .base64
  | .urlEncode => .ok (Percent.encode t)
  | .urlDecode => (Percent.decode t).mapError .percent
  | .rot13 => .ok (Rot13.encode t)
  | .jwtDecode => ((Token.decode t).map Json.pretty).mapError .token
  | .markdownToHtml => .ok (Markdown.toHtml t)
  | .xmlToJson => ((Xml.toJson t).map Json.pretty).mapError .xml
  | .yamlToJson => ((Yaml.toJson t).map Json.pretty).mapError .yaml

end Engine

namespace Converter

/-- The answer of a converter that has no engine. -/
def placeholder (slug : Text) : Text :=
  "// " ++ slug ++ " is routed and recognized in SyntaxShift.\n"
    ++ "// This converter currently ships with a best-effort placeholder output.\n"
    ++ "// Full fidelity implementation for this target is pending."

end Converter

def convert (slug t : Text) (given : List (Text × Json)) : Except Failure Text :=
  if Text.blank t then .ok []
  else match Converter.ofSlug? slug with
    | none => .error (.unsupported slug)
    | some converter =>
      match converter.engine? with
      | none => .ok (Converter.placeholder slug)
      | some engine =>
        let settings := Setting.resolve converter.settings given
        (engine.run settings t).mapError (.refused converter.title)

end Recast
