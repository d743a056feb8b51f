import Recast.Markdown.Fence
import Recast.Markdown.Inline
import Recast.Markdown.RawBlock

/-! # Pages

From a Markdown source to HTML: what is HTML or fenced code is set aside, blocks are read
from the rest, and markup is looked for in their texts.
-/

namespace Recast.Markdown

def toHtml (t : Text) : Text :=
  let source := normalize t
  let (asides, source) := Fence.setAside source
  let (asides, source) := RawBlock.setAside asides source
  let (page, definitions) := readPage source
  let page := Inline.mapContent (fun content =>
    let (text, inner) := Glyph.splitLead content
    text ++ Inline.inChildren definitions (2 * source.length + 32) inner)
    (Glyph.ofBlock asides page)
  printPage page

end Recast.Markdown
