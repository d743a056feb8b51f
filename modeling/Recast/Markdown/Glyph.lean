import Recast.Markdown.Block
import Recast.Markdown.Escape
import Recast.Markdown.Source
import Recast.Markdown.Tag

/-! # Glyphs

Inside of blocks a text is a list of glyphs. Markup is only looked for in characters, so
whatever has been recognised once is never taken for markup again.
-/

namespace Recast.Markdown

/-- A part of a text. -/
inductive Glyph where
  | char (c : Char)
  /-- A character that is no markup. -/
  | escaped (c : Char)
  /-- HTML that stands for itself. -/
  | html (t : Text)
  /-- An element. In the text at the start of a final one there is no markup. -/
  | element (name : Text) (attributes : List (Text × Text)) (isFinal : Bool)
      (content : List Glyph)
  deriving Repr

instance : Inhabited Glyph := ⟨.html []⟩

namespace Glyph

def isElement : Glyph → Bool
  | .element .. => true
  | _ => false

def isCharIn (p : Char → Bool) : Glyph → Bool
  | .char c => p c
  | _ => false

def is (c : Char) (g : Glyph) : Bool := g.isCharIn (· == c)

def isSpace (g : Glyph) : Bool := g.isCharIn Text.isBlank

def ofText (t : Text) : List Glyph := t.map .char

/-- The text at the start, before the first element, and the content from there on. -/
def splitLead (content : List Glyph) : List Glyph × List Glyph :=
  (content.takeWhile (!·.isElement), content.dropWhile (!·.isElement))

/-- What follows a text, when the glyphs start with its characters. -/
def after? : Text → List Glyph → Option (List Glyph)
  | [], gs => some gs
  | c :: t, g :: gs => if g.is c then after? t gs else none
  | _ :: _, [] => none

/-- Drop white space at both ends. -/
def trim (gs : List Glyph) : List Glyph :=
  ((gs.dropWhile isSpace).reverse.dropWhile isSpace).reverse

/-- The glyphs between the start and the first one with the property, and those after it. -/
def cut? (p : Glyph → Bool) (gs : List Glyph) : Option (List Glyph × List Glyph) :=
  match gs.dropWhile (!p ·) with
  | _ :: rest => some (gs.takeWhile (!p ·), rest)
  | [] => none

/-! ## Blocks -/

def ofMarked (asides : Asides) (t : Text) : List Glyph :=
  (asides.pieces t).map fun
    | .char c => .char c
    | .html part => .html part

def nameOf : BlockKind → Text
  | .page => "div"
  | .paragraph => "p"
  | .heading level => 'h' :: Text.ofNat level
  | .rule => "hr"
  | .quote => "blockquote"
  | .bullets => "ul"
  | .numbers => "ol"
  | .item => "li"
  | .listing => "pre"
  | .table => "table"
  | .tableHead => "thead"
  | .tableBody => "tbody"
  | .row => "tr"
  | .cell isHead _ => if isHead then "th" else "td"

/-- The attributes of a block: only cells have any. -/
def attributesOf : BlockKind → List (Text × Text)
  | .cell _ (some side) => [("style", "text-align: " ++ side ++ ";")]
  | _ => []

/-- The element for code, which is always final. -/
def code (content : List Glyph) : Glyph := .element "code" [] true content

mutual
/-- The element that a block becomes. White space at the end of a listing is one line feed. -/
def ofBlock (asides : Asides) : Block → Glyph
  | .mk kind text inner =>
    let content :=
      if kind == .listing then [code (ofMarked asides (Text.trimRight text ++ ['\n']))]
      else ofMarked asides text ++ ofInner asides inner
    .element (nameOf kind) (attributesOf kind) false content

/-- Elements for inner blocks, with their tails. -/
def ofInner (asides : Asides) : List (Block × Text) → List Glyph
  | [] => []
  | (block, tail) :: rest => ofBlock asides block :: ofMarked asides tail ++ ofInner asides rest
end

end Glyph
end Recast.Markdown
