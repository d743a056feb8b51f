import Recast.Desk.View

/-! # Sessions at the desk

A session is a sequence of steps from the start state. After each step the output,
its status and the banner are worked out afresh from what is entered.
-/

namespace Recast.Desk

/-- What is entered, and the output shown. -/
structure State where
  slug : Text
  text : Text
  svgo : Bool
  minify : Bool
  output : Text
  deriving DecidableEq, Repr

def startSlug : Text := "svg-to-jsx"

def State.start : State :=
  { slug := startSlug, text := Converter.sampleOf startSlug, svgo := true, minify := false,
    output := [] }

/-- A step of a user. -/
inductive Step where
  | select (slug : Text)
  | text (value : Text)
  | svgo (value : Bool)
  | minify (value : Bool)
  | swap
  deriving DecidableEq, Repr

/-- What is shown after a step; only swapping leaves a note. -/
structure Screen where
  state : State
  status : Text
  banner : Text
  note? : Option Text
  deriving DecidableEq, Repr

/-- The state after what a step enters, and its note. -/
def State.enter (s : State) : Step → State × Option Text
  | .select slug =>
    let selection := Desk.select slug
    ({ s with
        slug
        text := selection.text
        svgo := selection.svgo.ticked
        minify := selection.minify.ticked }, none)
  | .text value => ({ s with text := value }, none)
  | .svgo value => ({ s with svgo := value }, none)
  | .minify value => ({ s with minify := value }, none)
  | .swap =>
    let swapped := Desk.swap s.slug s.text s.output
    ({ s with slug := swapped.slug?.getD s.slug, text := swapped.text }, some swapped.note)

def State.step (s : State) (step : Step) : Screen :=
  let (s, note?) := s.enter step
  let outcome := Desk.outcome s.slug s.text s.svgo s.minify
  { state := { s with output := outcome.output }
    status := outcome.status
    banner := Desk.banner s.text s.slug
    note? }

def State.run (s : State) : List Step → List Screen
  | [] => []
  | step :: steps =>
    let screen := s.step step
    screen :: screen.state.run steps

end Recast.Desk
