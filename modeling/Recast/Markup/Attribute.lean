import Recast.Text.Blank
import Recast.Text.Caseless

/-! # Attribute names in component code

Attribute names that component code spells differently are replaced wherever a
word begins and an equals sign follows; drawings can be tidied first.
-/

namespace Recast.Markup

/-- Rename an attribute, its equals sign included. -/
def rename (name replacement : String) (t : Text) : Text :=
  Text.replaceHead (name.toList ++ ['=']) (replacement.toList ++ ['=']) t

/-- Rename an attribute that is written in any case. -/
def renameCaseless (name replacement : String) (t : Text) : Text :=
  Text.replaceHeadCaseless (name.toList ++ ['=']) (replacement.toList ++ ['=']) t

/-- The renamings of drawings, in order. -/
def drawingRenames : List (Text → Text) :=
  [rename "class" "className", rename "stroke-width" "strokeWidth",
    rename "stroke-linecap" "strokeLinecap", rename "stroke-linejoin" "strokeLinejoin",
    rename "fill-rule" "fillRule", rename "clip-rule" "clipRule"]

/-- The renamings of pages, in order. -/
def pageRenames : List (Text → Text) :=
  [rename "class" "className", rename "for" "htmlFor",
    renameCaseless "onchange" "onChange", renameCaseless "onclick" "onClick"]

/-- The length of the comment at the start of a text, when there is a complete one. -/
def commentLength? (t : Text) : Option Nat := do
  let rest ← Text.after? "<!--" t
  let (inside, _) ← Text.cutAtText? "-->" rest
  some (inside.length + 7)

/-- Drop complete comments; `skip` counts the characters of one that are still to be passed. -/
def dropComments : Nat → Text → Text
  | _, [] => []
  | skip + 1, _ :: rest => dropComments skip rest
  | 0, c :: rest =>
    match commentLength? (c :: rest) with
    | some n => dropComments (n - 1) rest
    | none => c :: dropComments 0 rest

/-- Write one space for each run of at least two white space characters. `inRun` tells that
    the run's space is already written. -/
def collapseBlanks : Bool → Text → Text
  | _, [] => []
  | true, c :: rest =>
    if Text.isBlank c then collapseBlanks true rest else c :: collapseBlanks false rest
  | false, c :: rest =>
    if Text.isBlank c && rest.head?.any Text.isBlank then ' ' :: collapseBlanks true rest
    else c :: collapseBlanks false rest

/-- A drawing without comments and superfluous white space. -/
def tidy (t : Text) : Text := Text.trim (collapseBlanks false (dropComments 0 t))

/-- A drawing as component code, tidied first if asked for. -/
def drawingToComponent (tidyFirst : Bool) (t : Text) : Text :=
  drawingRenames.foldl (fun t r => r t) (if tidyFirst then tidy t else t)

def pageToComponent (t : Text) : Text := pageRenames.foldl (fun t r => r t) t

end Recast.Markup
