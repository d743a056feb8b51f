import Recast.Convert
import Recast.Detect

/-! # The desk

What a user sees while converting: the output with a line of status, a banner
that names the format of the input, and the other direction at the press of a button.
-/

namespace Recast.Desk

/-- Title and slug of every converter, the title behind its category. -/
def choices : List (Text × Text) :=
  Converter.catalogue.map fun c => (c.category ++ " · " ++ c.title, c.slug)

/-- A check box: whether it is shown and whether it is ticked. -/
structure CheckBox where
  visible : Bool
  ticked : Bool
  deriving DecidableEq, Repr

/-- The box for a setting: shown if the converter with the slug has it, and always at its
    default. -/
def checkBox (setting : Setting) (slug : Text) : CheckBox :=
  { visible := (Converter.settingsOf slug).any fun s => s.key = setting.key
    ticked := setting.default.truth }

/-- What is shown when a converter is selected. -/
structure Selection where
  text : Text
  svgo : CheckBox
  minify : CheckBox
  deriving DecidableEq, Repr

/-- Selecting a converter shows its sample and puts the settings back to their defaults. -/
def select (slug : Text) : Selection :=
  { text := Converter.sampleOf slug
    svgo := checkBox Converter.svgo slug
    minify := checkBox Converter.minify slug }

/-- Output and status of a conversion. -/
structure Outcome where
  output : Text
  status : Text
  deriving DecidableEq, Repr

/-- The title of the converter with a slug, or the slug. -/
def titleOf (slug : Text) : Text := ((Converter.ofSlug? slug).map (·.title)).getD slug

/-- Convert what was entered. -/
def outcome (slug t : Text) (svgo minify : Bool) : Outcome :=
  match convert slug t [("svgo", .bool svgo), ("minify", .bool minify)] with
  | .error failure => { output := [], status := "Error: " ++ failure.message }
  | .ok output =>
    if output.isEmpty then { output := [], status := [] }
    else { output, status := "Converted with " ++ titleOf slug ++ ['.'] }

/-- The quote around a title. -/
def tick : Text := "`"

/-- The format of what was entered, and the other converters that read it. -/
def banner (t slug : Text) : Text :=
  match Detect.guess? t with
  | none => []
  | some guess =>
    let found : Text :=
      "Detected **" ++ guess.format.label ++ "** (" ++ guess.confidence.name ++ " confidence)."
    match Converter.reading guess.format slug with
    | [] => found
    | others =>
      found ++ " Try: " ++ Text.join ", " (others.map fun c => tick ++ c.title ++ tick)

/-- What swapping the direction leads to; without a reverse converter the slug stays. -/
structure Swap where
  slug? : Option Text
  text : Text
  note : Text
  deriving DecidableEq, Repr

/-- Go to the reverse converter, the output becoming the input. -/
def swap (slug t output : Text) : Swap :=
  match Converter.reverse? slug with
  | some reverse => { slug? := some reverse.slug, text := output, note := [] }
  | none => { slug? := none, text := t, note := "No reverse converter for " ++ slug ++ ['.'] }

end Recast.Desk
