import Recast.Text.Basic

/-! # Formats

The formats that converters read and write, with the label that each is shown
under and the sample that stands for it.
-/

namespace Recast

/-- A format of texts. -/
inductive Format where
  | svg
  | jsx
  | html
  | json
  | typeScript
  | yaml
  | zod
  | jsonSchema
  | openApi
  | protobuf
  | python
  | javaScript
  | text
  | base64
  | urlEncoded
  | rot13
  | jwt
  | markdown
  | xml
  deriving DecidableEq, Repr

namespace Format

def all : List Format :=
  [.svg, .jsx, .html, .json, .typeScript, .yaml, .zod, .jsonSchema, .openApi, .protobuf, .python,
    .javaScript, .text, .base64, .urlEncoded, .rot13, .jwt, .markdown, .xml]

def label : Format → Text
  | .svg => "SVG"
  | .jsx => "JSX"
  | .html => "HTML"
  | .json => "JSON"
  | .typeScript => "TypeScript"
  | .yaml => "YAML"
  | .zod => "Zod"
  | .jsonSchema => "JSON Schema"
  | .openApi => "OpenAPI Schema"
  | .protobuf => "Protobuf"
  | .python => "Python"
  | .javaScript => "JavaScript"
  | .text => "Text"
  | .base64 => "Base64"
  | .urlEncoded => "URL-encoded"
  | .rot13 => "ROT13"
  | .jwt => "JWT"
  | .markdown => "Markdown"
  | .xml => "XML"

def ofLabel? (label : Text) : Option Format := all.find? fun format => format.label = label

/-- The ending of the names of files in a format. -/
def extension : Format → Text
  | .typeScript | .zod => ".ts"
  | .javaScript => ".js"
  | .jsx => ".jsx"
  | .python => ".py"
  | .json => ".json"
  | .yaml => ".yaml"
  | .html => ".html"
  | _ => ".txt"

/-- A text in the format, for those that some converter reads. -/
def sample : Format → Text
  | .svg =>
    "<svg width=\"100\" height=\"100\">"
      ++ "<rect x=\"10\" y=\"10\" width=\"80\" height=\"80\" fill=\"#4f46e5\" /></svg>"
  | .html => "<div class=\"card\"><h1>Hello</h1></div>"
  | .json =>
    "\x7b\n  \"id\": 1,\n  \"name\": \"SyntaxShift\",\n  \"active\": true,\n"
      ++ "  \"tags\": [\"tools\", \"convert\"]\n\x7d"
  | .jsonSchema =>
    "\x7b\n  \"title\": \"User\",\n  \"type\": \"object\",\n  \"properties\": \x7b\n"
      ++ "    \"id\": \x7b \"type\": \"number\" \x7d,\n"
      ++ "    \"name\": \x7b \"type\": \"string\" \x7d\n  \x7d,\n"
      ++ "  \"required\": [\"id\", \"name\"]\n\x7d"
  | .python => "def greet(name):\n    return f\"Hello, \x7bname\x7d\""
  | .javaScript => "function greet(name) \x7b\n  return `Hello, $\x7bname\x7d`;\n\x7d"
  | .text => "Hello, SyntaxShift!"
  | .base64 => "SGVsbG8sIFN5bnRheFNoaWZ0IQ=="
  | .urlEncoded => "Hello%2C%20SyntaxShift!"
  | .rot13 => "Uryyb, FlagnkFuvsg!"
  | .jwt =>
    "eyJhbGciOiJIUzI1NiIsInR5cCI6IkpXVCJ9"
      ++ ".eyJzdWIiOiIxMjM0NTY3ODkwIiwibmFtZSI6IlN5bnRheFNoaWZ0IiwiaWF0IjoxNTE2MjM5MDIyfQ"
      ++ ".SflKxwRJSMeKKF2QT4fwpMeJf36POk6yJV_adQssw5c"
  | .markdown => "# SyntaxShift\n\nConvert anything."
  | .xml => "<user><id>1</id><name>SyntaxShift</name></user>"
  | .yaml => "id: 1\nname: SyntaxShift"
  | .jsx | .typeScript | .zod | .openApi | .protobuf => []

end Format
end Recast
