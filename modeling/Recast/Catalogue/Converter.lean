import Recast.Catalogue.Format
import Recast.Catalogue.Setting

/-! # The catalogue of converters

Every converter with its formats and settings, in the order in which they are
offered. A converter whose engine is missing answers with a placeholder.
-/

namespace Recast

/-- The engines that do the converting. -/
inductive Engine where
  | svgToJsx
  | htmlToJsx
  | jsonToTypeScript
  | jsonToYaml
  | jsonPrettify
  | jsonToZod
  | schemaToTypeScript
  | pythonToJavaScript
  | javaScriptToPython
  | base64Encode
  | base64Decode
  | urlEncode
  | urlDecode
  | rot13
  | jwtDecode
  | markdownToHtml
  | xmlToJson
  | yamlToJson
  deriving DecidableEq, Repr

/-- A converter: its slug names it for good, its title is shown. -/
structure Converter where
  slug : Text
  title : Text
  source : Format
  target : Format
  category : Text
  settings : List Setting
  engine? : Option Engine
  deriving Repr

namespace Converter

/-- Tidy drawings first? -/
def svgo : Setting :=
  { key := "svgo", label := "SVGO optimization", kind := .boolean, default := .bool true }

/-- Leave out all space? -/
def minify : Setting :=
  { key := "minify", label := "Minify output", kind := .boolean, default := .bool false }

/-- Every converter, grouped by category. -/
def catalogue : List Converter :=
  [⟨"svg-to-jsx", "SVG to JSX", .svg, .jsx, "SVG", [svgo], some .svgToJsx⟩,
    ⟨"html-to-jsx", "HTML to JSX", .html, .jsx, "HTML", [], some .htmlToJsx⟩,
    ⟨"json-to-typescript", "JSON to TypeScript", .json, .typeScript, "JSON", [],
      some .jsonToTypeScript⟩,
    ⟨"json-to-yaml", "JSON to YAML", .json, .yaml, "JSON", [], some .jsonToYaml⟩,
    ⟨"json-prettify", "JSON Prettify / Minify", .json, .json, "JSON", [minify],
      some .jsonPrettify⟩,
    ⟨"json-to-zod", "JSON to Zod Schema", .json, .zod, "JSON", [], some .jsonToZod⟩,
    ⟨"json-schema-to-typescript", "JSON Schema to TypeScript", .jsonSchema, .typeScript,
      "JSON Schema", [], some .schemaToTypeScript⟩,
    ⟨"json-schema-to-openapi-schema", "JSON Schema to OpenAPI Schema", .jsonSchema, .openApi,
      "JSON Schema", [], none⟩,
    ⟨"json-schema-to-protobuf", "JSON Schema to Protobuf", .jsonSchema, .protobuf,
      "JSON Schema", [], none⟩,
    ⟨"python-to-javascript", "Python to JavaScript", .python, .javaScript,
      "Programming Languages", [], some .pythonToJavaScript⟩,
    ⟨"javascript-to-python", "JavaScript to Python", .javaScript, .python,
      "Programming Languages", [], some .javaScriptToPython⟩,
    ⟨"base64-encode", "Base64 Encode", .text, .base64, "Utilities", [], some .base64Encode⟩,
    ⟨"base64-decode", "Base64 Decode", .base64, .text, "Utilities", [], some .base64Decode⟩,
    ⟨"url-encode", "URL Encode", .text, .urlEncoded, "Utilities", [], some .urlEncode⟩,
    ⟨"url-decode", "URL Decode", .urlEncoded, .text, "Utilities", [], some .urlDecode⟩,
    ⟨"rot13-encode", "ROT13 Encode", .text, .rot13, "Utilities", [], some .rot13⟩,
    ⟨"rot13-decode", "ROT13 Decode", .rot13, .text, "Utilities", [], some .rot13⟩,
    ⟨"jwt-decode", "JWT Decode", .jwt, .json, "Utilities", [], some .jwtDecode⟩,
    ⟨"markdown-to-html", "Markdown to HTML", .markdown, .html, "Others", [],
      some .markdownToHtml⟩,
    ⟨"xml-to-json", "XML to JSON", .xml, .json, "Others", [], some .xmlToJson⟩,
    ⟨"yaml-to-json", "YAML to JSON", .yaml, .json, "Others", [], some .yamlToJson⟩]

def categories : List Text := (catalogue.map (·.category)).eraseDups

def ofSlug? (slug : Text) : Option Converter := catalogue.find? fun c => c.slug = slug

def settingsOf (slug : Text) : List Setting := ((ofSlug? slug).map (·.settings)).getD []

def sampleOf (slug : Text) : Text := ((ofSlug? slug).map (·.source.sample)).getD []

/-- The converter for the opposite direction. -/
def reverse? (slug : Text) : Option Converter := do
  let converter ← ofSlug? slug
  catalogue.find? fun c =>
    c.slug ≠ slug && c.source = converter.target && c.target = converter.source

def reading (format : Format) (slug : Text) : List Converter :=
  catalogue.filter fun c => c.source = format && c.slug ≠ slug

end Converter
end Recast
