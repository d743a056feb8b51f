import Recast.Markdown.Emphasis
import Recast.Markdown.Link

/-! # Markup inside of texts

Kinds of markup are looked for one after the other, each in the whole text. What one kind
has recognised is a single glyph for those that come later.
-/

namespace Recast.Markdown.Inline

/-- What a kind of markup says about a position. -/
inductive Verdict where
  /-- There is none here. -/
  | miss
  /-- A number of glyphs are no markup of this kind. -/
  | skip (n : Nat)
  /-- The glyphs that stand for the markup here, and what follows it. -/
  | take (found rest : List Glyph)

/-- A kind of markup. It is given the glyphs before a position, last one first, and those
    from the position on. -/
abbrev Matcher := List Glyph → List Glyph → Verdict

/-- One glyph, if something was read. -/
def Verdict.ofRead (otherwise : Verdict) : Option (Glyph × List Glyph) → Verdict
  | some (found, rest) => .take [found] rest
  | none => otherwise

def isFree (c : Char) (before : List Glyph) : Bool := !before.head?.any (·.is c)

/-! ## Code -/

/-- Split a text at the first run of exactly `n` backticks; `passed` are the glyphs before
    it in reverse, at least one of which is needed, and `isRun` tells that the last of them is
    a backtick. -/
def cutTicks? (n : Nat) (passed : List Glyph) (isRun : Bool) : List Glyph →
    Option (List Glyph × List Glyph)
  | [] => none
  | g :: rest =>
    let run := (g :: rest).takeWhile (·.is '`')
    if !isRun && !passed.isEmpty && run.length = n && n ≠ 0 then
      some (passed.reverse, (g :: rest).drop n)
    else cutTicks? n (g :: passed) (g.is '`') rest

/-- Code that `n` backticks start, or fewer if none end it. -/
def readCode? (gs : List Glyph) : Nat → Option (Glyph × List Glyph)
  | 0 => none
  | n + 1 =>
    match cutTicks? (n + 1) [] true (gs.drop (n + 1)) with
    | some (inside, rest) => some (Glyph.code (Glyph.trim inside), rest)
    | none => readCode? gs n

/-- Code in backticks. Pairs of backslashes in front of backticks are backslashes. -/
def code : Matcher := fun before gs =>
  if !isFree '\\' before then .miss
  else
    let slashes := (gs.takeWhile (·.is '\\')).length
    if slashes = 0 then
      Verdict.ofRead .miss (readCode? gs (gs.takeWhile (·.is '`')).length)
    else if slashes % 2 = 0 && (gs.drop slashes).head?.any (·.is '`') then
      .take (List.replicate (slashes / 2) (.escaped '\\')) (gs.drop slashes)
    else .miss

/-! ## Single characters -/

/-- The characters that a backslash escapes. -/
def escapable : Text := "\\`*_\x7b\x7d[]()>#+-.!|"

/-- A character after a backslash. -/
def escape : Matcher
  | _, .char '\\' :: .char c :: rest =>
    if escapable.contains c then .take [.escaped c] rest else .skip 2
  | _, .char '\\' :: _ :: _ => .skip 2
  | _, _ => .miss

/-- Two spaces at the end of a line. -/
def lineBreak : Matcher
  | _, .char ' ' :: .char ' ' :: .char '\n' :: rest => .take [.element "br" [] false []] rest
  | _, _ => .miss

def entity : Matcher
  | _, .char '&' :: rest =>
    let isEntity : Text → Bool
      | '#' :: 'x' :: t => runsToSemicolon isHexDigit t
      | '#' :: t => runsToSemicolon isAsciiDigit t
      | t => runsToSemicolon (fun c => isAsciiDigit c || isAsciiLetter c) t
    let t : Text := (rest.takeWhile (·.isCharIn fun _ => true)).map fun
      | .char c => c
      | _ => ' '
    if isEntity t then
      let length := (t.takeWhile (· != ';')).length + 1
      .take [.html ('&' :: t.take length)] (rest.drop length)
    else .miss
  | _, _ => .miss

/-- Signs between white space that emphasise nothing. -/
def loneSigns : Matcher := fun before gs =>
  match gs with
  | .char c :: _ =>
    let n := (gs.takeWhile (·.is c)).length
    let isFree := before.head?.all Glyph.isSpace && (gs.drop n).head?.all Glyph.isSpace
    if (c = '*' || c = '_') && isFree && n ≤ 3 then
      .take (List.replicate n (.escaped c)) (gs.drop n)
    else .miss
  | _ => .miss

def emphasis (sign : Char) (rules : List Emphasis.Rule) : Matcher := fun before gs =>
  if gs.head?.any (·.is sign) then
    Verdict.ofRead (.skip 1) (Emphasis.read? sign before.head? gs rules)
  else .miss

/-! ## Links -/

/-- What follows the start of a link or an image. -/
def opening? (target : Link.Target) (before gs : List Glyph) : Option (List Glyph) :=
  match target with
  | .link => if isFree '!' before then Glyph.after? "[" gs else none
  | .image => Glyph.after? "![" gs

/-- The number of glyphs that start a link or an image. -/
def width : Link.Target → Nat
  | .link => 1
  | .image => 2

/-- A text in brackets with an address in parentheses. -/
def direct (target : Link.Target) : Matcher := fun before gs =>
  match opening? target before gs with
  | none => .miss
  | some inside =>
    Verdict.ofRead (.skip (width target)) do
      let (text, rest) ← Link.readBracketed? 0 inside
      let (destination, rest) ← Link.readDestination? rest
      let title := destination.title.map Link.cleanTitle
      return (Link.element target text (Link.cleanAddress destination.address) title, rest)

/-- A text in brackets with a name in brackets behind it, or, if it is `short`, without one.
    What names no definition stays. -/
def reference (definitions : Definitions) (target : Link.Target) (short : Bool) : Matcher :=
  fun before gs =>
    let named? := do
      let (text, rest) ← Link.readBracketed? 0 (← opening? target before gs)
      let (name, rest) ← if short then some (text, rest) else Link.readName? text rest
      return (text, name, rest)
    match named? with
    | some (text, name, rest) =>
      match Link.findTarget? definitions name with
      | some found => .take [Link.defined target text found] rest
      | none => .skip (gs.length - rest.length)
    | none => if (opening? target before gs).isSome then .skip (width target) else .miss

def address : Matcher := fun _ gs => Verdict.ofRead .miss (Link.readAddress? gs)

def mail : Matcher := fun _ gs => Verdict.ofRead .miss (Link.readMail? gs)

/-! ## HTML -/

/-- A glyph as it was written, or nearly so: what has been recognised before is HTML. -/
def sourceOf : Glyph → Text
  | .char c => [c]
  | .escaped c => ['\\', c]
  | .html t => '\\' :: t
  | g => Glyph.print false [] [g]

/-- The end of a tag, from after its first sign on. -/
def afterTag? (gs : List Glyph) : Option (List Glyph) :=
  let name := (Glyph.after? "/" gs).getD gs
  if !name.head?.any (·.isCharIn isAsciiLetter) then none
  else
    let isEnd (g : Glyph) : Bool := g.is '<' || g.is '>'
    let rest := (name.drop 1).dropWhile fun g => !(isEnd g || g.is '@' || g.is ' ')
    let rest := if rest.head?.any (·.is ' ') then rest.dropWhile (!isEnd ·) else rest
    Glyph.after? ">" rest

/-- The end of a comment, which has no other comment inside. -/
def afterComment? : List Glyph → Option (List Glyph)
  | [] => none
  | g :: rest =>
    match Glyph.after? "-->" (g :: rest) with
    | some after => some after
    | none => if (Glyph.after? "<!--" (g :: rest)).isSome then none else afterComment? rest

/-- A tag or a comment. -/
def html : Matcher
  | _, .char '<' :: inside =>
    let rest? := match Glyph.after? "!--" inside with
      | some comment => afterComment? comment
      | none => afterTag? inside
    match rest? with
    | some rest =>
      let source := inside.take (inside.length - rest.length)
      .take [.html ('<' :: source.flatMap sourceOf)] rest
    | none => .miss
  | _, _ => .miss

/-! ## All kinds -/

/-- The kinds of markup in the order in which they are looked for. -/
def matchers (definitions : Definitions) : List Matcher := [
  code,
  escape,
  reference definitions .link false,
  direct .link,
  direct .image,
  reference definitions .image false,
  reference definitions .link true,
  reference definitions .image true,
  address,
  mail,
  lineBreak,
  html,
  entity,
  loneSigns,
  emphasis '*' Emphasis.asteriskRules,
  emphasis '_' Emphasis.underscoreRules]

/-- The first place with some markup: the glyphs before it in reverse, the glyphs that stand
    for it, and those after it. -/
def find? (matcher : Matcher) (skipped : Nat) (before : List Glyph) :
    List Glyph → Option (List Glyph × List Glyph × List Glyph)
  | [] => none
  | g :: rest =>
    match skipped with
    | skipped + 1 => find? matcher skipped (g :: before) rest
    | 0 =>
      match matcher before (g :: rest) with
      | .miss => find? matcher 0 (g :: before) rest
      | .skip n => find? matcher (n - 1) (g :: before) rest
      | .take found after => some (before, found, after)

/-- Treat the text at the start of an element. -/
def inLead (treat : List Glyph → List Glyph) : Glyph → Glyph
  | .element name attributes isFinal content =>
    let (lead, inner) := Glyph.splitLead content
    .element name attributes isFinal (if isFinal then content else treat lead ++ inner)
  | g => g

/-- Treat the texts behind elements with `tail`, and the elements themselves with `element`. -/
def inTails (tail : List Glyph → List Glyph) (element : Glyph → Glyph) (fuel : Nat) :
    List Glyph → List Glyph :=
  match fuel with
  | 0 => id
  | fuel + 1 => fun
    | [] => []
    | g :: rest =>
      let (text, others) := Glyph.splitLead rest
      element g :: tail text ++ inTails tail element fuel others

/-- Treat the texts of an element that has just been found, and those of its children. -/
def inFound (lead tail : List Glyph → List Glyph) (g : Glyph) : Glyph :=
  match g with
  | .element name attributes false content =>
    let (text, inner) := Glyph.splitLead content
    .element name attributes false
      (lead text ++ inTails tail (inLead lead) (inner.length + 1) inner)
  | g => g

/-- Look for markup in a text. Elements that are found may have more in their own texts, of
    the kinds that are still to come. -/
def recognise (fuel : Nat) (matchers : List Matcher) (gs : List Glyph) : List Glyph :=
  match fuel with
  | 0 => gs
  | fuel + 1 =>
    match matchers with
    | [] => gs
    | matcher :: later =>
      match find? matcher 0 [] gs with
      | none => recognise fuel later gs
      | some (before, found, rest) =>
        let found := found.map (inFound (recognise fuel later) (recognise fuel matchers))
        recognise fuel matchers (before.reverse ++ found ++ rest)

/-- Look for all kinds of markup in a text. -/
def recogniseAll (definitions : Definitions) (gs : List Glyph) : List Glyph :=
  recognise (2 * gs.length + 32) (matchers definitions) gs

/-! ## Trees -/

/-- Change the content of an element. -/
def mapContent (f : List Glyph → List Glyph) : Glyph → Glyph
  | .element name attributes isFinal content => .element name attributes isFinal (f content)
  | g => g

/-- Does an element contain others? -/
def hasChildren : Glyph → Bool
  | .element _ _ _ content => content.any Glyph.isElement
  | _ => false

/-- Look for markup in some elements and in the texts behind them. New elements in the text of
    an element are among its children if it has others, and are only entered if not; those
    in the text behind it follow it. -/
def inChildren (definitions : Definitions) (fuel : Nat) (children : List Glyph) : List Glyph :=
  match fuel with
  | 0 => children
  | fuel + 1 =>
    match children with
    | [] => []
    | child :: rest =>
      let treat := recogniseAll definitions
      let enter (content : List Glyph) : List Glyph :=
        let (text, inner) := Glyph.splitLead content
        text ++ inChildren definitions fuel inner
      let treated := inLead treat child
      let child :=
        if hasChildren child then mapContent enter treated
        else mapContent (·.map (mapContent enter)) treated
      let (tail, others) := Glyph.splitLead rest
      let (text, found) := Glyph.splitLead (treat tail)
      child :: text ++ inChildren definitions fuel (found ++ others)

end Recast.Markdown.Inline
