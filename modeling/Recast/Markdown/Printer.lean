import Recast.Markdown.Glyph

/-! # Printing pages

Line feeds are put between blocks, and then elements are written as tags. HTML that stands
between paragraphs loses the paragraph that was made around it.
-/

namespace Recast.Markdown

namespace Glyph

/-! ## Line feeds -/

def startsBlank (gs : List Glyph) : Bool := (splitLead gs).1.all isSpace

/-- Is it an element that stands between paragraphs? -/
def isBlock : Glyph → Bool
  | .element name .. => isBlockName name
  | _ => false

def keepsLayout (name : Text) : Bool :=
  !isBlockName name || name == "pre".toList || name == "code".toList

/-- Put blocks on lines of their own. White space behind a block becomes a line feed; `drops`
    tells that this has been done and what is left of it goes. -/
def layOut (drops : Bool) : List Glyph → List Glyph
  | [] => []
  | .element name attributes isFinal content :: rest =>
    if isBlockName name then
      let inside := layOut false content
      let (lead, inner) := splitLead inside
      let inside :=
        if keepsLayout name then content
        else if lead.all isSpace && inner.head?.any isBlock then .char '\n' :: inner
        else inside
      let laidOut := Glyph.element name attributes isFinal inside
      if startsBlank rest then laidOut :: .char '\n' :: layOut true rest
      else laidOut :: layOut false rest
    else .element name attributes isFinal content :: layOut false rest
  | g :: rest => if drops then layOut true rest else g :: layOut false rest
termination_by gs => gs
decreasing_by
  all_goals simp only [List.cons.sizeOf_spec, Glyph.element.sizeOf_spec]
  all_goals omega

/-- Put a line feed behind each line break. White space behind it goes, if that is all there
    is. -/
def breakLines (drops : Bool) : List Glyph → List Glyph
  | [] => []
  | .element name attributes isFinal content :: rest =>
    let inside := Glyph.element name attributes isFinal (breakLines false content)
    if name == "br".toList then inside :: .char '\n' :: breakLines (startsBlank rest) rest
    else inside :: breakLines false rest
  | g :: rest => if drops then breakLines true rest else g :: breakLines false rest

/-! ## Tags -/

/-- Elements that never have content. -/
def isVoid (name : Text) : Bool :=
  name == "br".toList || name == "hr".toList || name == "img".toList

/-- Does some HTML stand between paragraphs? It may be no element, but a comment or the like. -/
def isBlockHtml (t : Text) : Bool :=
  match Text.after? "<" t with
  | none => false
  | some rest =>
    let inside := (Text.after? "/" rest).getD rest
    let name := inside.takeWhile fun c => c != ' ' && c != '>'
    name.head?.any (fun c => c == '!' || c == '?' || c == '@' || c == '%') || isBlockName name

/-- The HTML that a paragraph consists of. -/
def blockHtml? (name : Text) (content : List Glyph) : Option Text :=
  match content with
  | [.html t] => if name == "p".toList && isBlockHtml t then some t else none
  | _ => none

def attributeText : List (Text × Text) → Text
  | [] => []
  | (name, value) :: rest =>
    " " ++ name ++ "=\"" ++ Escape.quoted value ++ "\"" ++ attributeText rest

/-- Write glyphs as HTML. In `verbatim` text every ampersand counts; `run` are the characters
    that are still to be written, last one first. -/
def print (verbatim : Bool) (run : Text) : List Glyph → Text
  | [] => written run
  | .char c :: rest | .escaped c :: rest => print verbatim (c :: run) rest
  | .html t :: rest => written run ++ t ++ print verbatim [] rest
  | .element name attributes _ content :: rest =>
    let inside := print (name == "code".toList) [] content
    let element := match blockHtml? name content with
      | some t => t
      | none =>
        let start : Text := "<" ++ name ++ attributeText attributes
        if isVoid name then start ++ " />" else start ++ ">" ++ inside ++ "</" ++ name ++ ">"
    written run ++ element ++ print verbatim [] rest
where
  written (run : Text) : Text :=
    if verbatim then Escape.code run.reverse else Escape.content run.reverse

end Glyph

/-- The HTML of a page: what is inside of its element. -/
def printPage (page : Glyph) : Text :=
  match Glyph.breakLines false (Glyph.layOut false [page]) with
  | .element _ _ _ content :: _ => Text.trim (Glyph.print false [] content)
  | _ => []

end Recast.Markdown
