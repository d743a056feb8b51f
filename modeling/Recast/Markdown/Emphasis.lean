import Recast.Markdown.Glyph
import Recast.Text.Word

/-! # Emphasis

Asterisks and underscores around a text emphasise it, one weakly and two strongly. Five
rules say what three and more of them mean; within a hunk only the later rules apply.
-/

namespace Recast.Markdown.Emphasis

/-- The elements that a rule makes of the two texts that it finds. -/
inductive Form where
  /-- One element. -/
  | single (name : Text)
  /-- The first text is in an inner element at the start of the outer one. -/
  | innerFirst (outer inner : Text)
  /-- The second text is in an inner element at the end of the outer one. -/
  | innerLast (outer inner : Text)
  deriving DecidableEq, Repr

/-- What a rule finds: one or two texts, and what follows. -/
structure Hunk where
  first : List Glyph
  second : List Glyph := []
  rest : List Glyph

/-- A rule. It is given the glyph in front and the glyphs from a position on. -/
structure Rule where
  form : Form
  find? : Option Glyph → List Glyph → Option Hunk

/-- The shortest text of at least `least` glyphs after which `accept` finds something. It is
    given the glyph in front, and `passed` is what has been passed already, in reverse. -/
def shortest? {α : Type} (least : Nat) (accept : Option Glyph → List Glyph → Option α)
    (passed : List Glyph) (gs : List Glyph) : Option (List Glyph × α) :=
  match (if least = 0 then accept passed.head? gs else none) with
  | some found => some (passed.reverse, found)
  | none =>
    match gs with
    | [] => none
    | g :: rest => shortest? (least - 1) accept (g :: passed) rest

/-- What follows `n` copies of the sign. -/
def after? (sign : Char) (n : Nat) (gs : List Glyph) : Option (List Glyph) :=
  Glyph.after? (Text.copies n sign) gs

def starts (sign : Char) (gs : List Glyph) : Bool := gs.head?.any (·.is sign)

/-- Is the glyph a letter, a digit or an underscore? -/
def isWord (g? : Option Glyph) : Bool := g?.any (·.isCharIn Text.isWord)

/-! ## Rules for both signs -/

/-- Three signs, a text, `middle` signs, a text and the others of the three. -/
def findTriple? (sign : Char) (middle : Nat) (gs : List Glyph) : Option Hunk := do
  let inside ← after? sign 3 gs
  let (first, second, rest) ← shortest? 1 (fun _ gs => do
    let inside ← after? sign middle gs
    shortest? 0 (fun _ gs => after? sign (3 - middle) gs) [] inside) [] inside
  return { first, second, rest }

/-- Three signs on both sides; the weak emphasis ends first. -/
def weakInside (sign : Char) : Rule :=
  { form := .innerFirst "strong" "em", find? := fun _ gs => findTriple? sign 1 gs }

/-- Three signs on both sides; the strong emphasis ends first. -/
def strongInside (sign : Char) : Rule :=
  { form := .innerFirst "em" "strong", find? := fun _ gs => findTriple? sign 2 gs }

/-! ## Asterisks -/

/-- A text without asterisks, and what follows it. -/
def readPlain? (gs : List Glyph) : Option (List Glyph × List Glyph) :=
  let inside := gs.takeWhile (!·.is '*')
  if inside.isEmpty then none else some (inside, gs.dropWhile (!·.is '*'))

/-- Strong emphasis that ends together with weak emphasis. -/
def asteriskTogether (_ : Option Glyph) (gs : List Glyph) : Option Hunk := do
  let inside ← after? '*' 2 gs
  let (first, rest) ← readPlain? inside
  let inside ← after? '*' 1 rest
  if starts '*' inside then none
  else
    let (second, rest) ← shortest? 1 (fun _ gs => after? '*' 3 gs) [] inside
    return { first, second, rest }

def asteriskStrong (_ : Option Glyph) (gs : List Glyph) : Option Hunk := do
  let inside ← after? '*' 2 gs
  let (first, rest) ← shortest? 1 (fun _ gs => after? '*' 2 gs) [] inside
  return { first, rest }

def asteriskWeak (_ : Option Glyph) (gs : List Glyph) : Option Hunk := do
  let inside ← after? '*' 1 gs
  let (first, rest) ← readPlain? inside
  return { first, rest := ← after? '*' 1 rest }

/-- The rules for asterisks, in order. -/
def asteriskRules : List Rule := [
  weakInside '*',
  strongInside '*',
  { form := .innerLast "strong" "em", find? := asteriskTogether },
  { form := .single "strong", find? := asteriskStrong },
  { form := .single "em", find? := asteriskWeak }]

/-! ## Underscores -/

/-- What follows `n` underscores that no word runs out of. -/
def closing? (n : Nat) (gs : List Glyph) : Option (List Glyph) := do
  let rest ← after? '_' n gs
  if isWord rest.head? then none else some rest

/-- What follows `n` underscores and no more, that no word runs into. -/
def opening? (n : Nat) (before? : Option Glyph) (gs : List Glyph) : Option (List Glyph) := do
  let rest ← if isWord before? then none else after? '_' n gs
  if starts '_' rest then none else some rest

/-- Strong emphasis that ends together with weak emphasis. -/
def underscoreTogether (before? : Option Glyph) (gs : List Glyph) : Option Hunk := do
  let inside ← opening? 2 before? gs
  let (first, second, rest) ← shortest? 1 (fun before? gs => do
    let inside ← opening? 1 before? gs
    shortest? 1 (fun _ gs => closing? 3 gs) [] inside) [] inside
  return { first, second, rest }

/-- A text between `n` underscores and `n` underscores. -/
def findBetween? (n : Nat) (before? : Option Glyph) (gs : List Glyph) : Option Hunk := do
  let inside ← opening? n before? gs
  let (first, rest) ← shortest? 1 (fun before? gs =>
    if before?.any (·.is '_') then none else closing? n gs) [] inside
  return { first, rest }

/-- The rules for underscores, in order. -/
def underscoreRules : List Rule := [
  weakInside '_',
  strongInside '_',
  { form := .innerLast "strong" "em", find? := underscoreTogether },
  { form := .single "strong", find? := findBetween? 2 },
  { form := .single "em", find? := findBetween? 1 }]

/-! ## Hunks -/

def element (name : Text) (content : List Glyph) : Glyph := .element name [] false content

/-- The element for a hunk; `inside` treats its texts. -/
def Form.build (form : Form) (inside : List Glyph → List Glyph) (hunk : Hunk) : Glyph :=
  match form with
  | .single name => element name (inside hunk.first)
  | .innerFirst outer inner =>
    element outer (element inner (inside hunk.first) :: inside hunk.second)
  | .innerLast outer inner =>
    element outer (inside hunk.first ++ [element inner (inside hunk.second)])

/-- Apply each rule at most once, one behind the other: the elements, and what is left.
    `inside` treats the text of an element, given the rules after its own. -/
def applyInTurn (sign : Char) (inside : List Rule → List Glyph → List Glyph) :
    List Rule → Option Glyph → List Glyph → List Glyph × List Glyph
  | [], _, gs => ([], gs)
  | rule :: later, before?, gs =>
    match rule.find? before? gs with
    | none => applyInTurn sign inside later before? gs
    | some hunk =>
      let found := rule.form.build (inside later) hunk
      let (others, rest) := applyInTurn sign inside later (some (.char sign)) hunk.rest
      (found :: others, rest)

def applyInside (fuel : Nat) (sign : Char) (rules : List Rule) (before? : Option Glyph)
    (gs : List Glyph) : List Glyph :=
  match fuel with
  | 0 => gs
  | fuel + 1 =>
    match gs with
    | [] => []
    | g :: rest =>
      let inside (rules : List Rule) (gs : List Glyph) := applyInside fuel sign rules none gs
      match applyInTurn sign inside (if g.is sign then rules else []) before? (g :: rest) with
      | ([], _) => g :: applyInside fuel sign rules (some g) rest
      | (found, rest) => found ++ applyInside fuel sign rules (some (.char sign)) rest

/-- The element at the start of a text, by the first rule that applies, and what follows it. -/
def read? (sign : Char) (before? : Option Glyph) (gs : List Glyph) :
    List Rule → Option (Glyph × List Glyph)
  | [] => none
  | rule :: later =>
    match rule.find? before? gs with
    | none => read? sign before? gs later
    | some hunk =>
      let inside (gs : List Glyph) := applyInside (gs.length + 1) sign later none gs
      some (rule.form.build inside hunk, hunk.rest)

end Recast.Markdown.Emphasis
