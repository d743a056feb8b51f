import Recast.Desk.Session
import Recast.Proofs.Catalogue.Lookup
import Recast.Proofs.Codec.Base64
import Recast.Proofs.Codec.Percent
import Recast.Proofs.Codec.Rot13

/-! # Swapping the direction and back

The text codecs lose nothing: what one of them makes of a text, its reverse turns back.
So at the desk a swap shows the encoded text with the original as its output, and a second
one leads to where the session was.
-/

namespace Recast

/-! ## Converters that undo each other -/

/-- The catalogue has a converter with each of the engines, and each is the other's reverse. -/
structure Opposite (converter reverse : Converter) (engine engine' : Engine) : Prop where
  known : Converter.ofSlug? converter.slug = some converter
  known' : Converter.ofSlug? reverse.slug = some reverse
  there : Converter.reverse? converter.slug = some reverse
  back : Converter.reverse? reverse.slug = some converter
  runs : converter.engine? = some engine
  runs' : reverse.engine? = some engine'

/-- The second engine undoes the first, which leaves no text blank that is not. -/
structure Undone (engine engine' : Engine) (encode : Text → Text) : Prop where
  forward : ∀ settings t, engine.run settings t = .ok (encode t)
  backward : ∀ settings t, engine'.run settings (encode t) = .ok t
  visible : ∀ t, Text.blank t = false → Text.blank (encode t) = false

theorem ne_nil_of_blank {t : Text} (visible : Text.blank t = false) : t ≠ [] := by
  rintro rfl
  cases visible

theorem opposite_of_mem {converter reverse : Converter} {engine engine' : Engine}
    (listed : converter ∈ Converter.catalogue) (listed' : reverse ∈ Converter.catalogue)
    (apart : converter.source ≠ converter.target) (apart' : reverse.source ≠ reverse.target)
    (there : (Converter.catalogue.find? fun c =>
      c.source = converter.target && c.target = converter.source) = some reverse)
    (back : (Converter.catalogue.find? fun c =>
      c.source = reverse.target && c.target = reverse.source) = some converter)
    (runs : converter.engine? = some engine) (runs' : reverse.engine? = some engine') :
    Opposite converter reverse engine engine' where
  known := Converter.ofSlug?_slug listed
  known' := Converter.ofSlug?_slug listed'
  there := (Converter.reverse?_slug listed apart).trans there
  back := (Converter.reverse?_slug listed' apart').trans back
  runs := runs
  runs' := runs'

theorem undone_base64 : Undone .base64Encode .base64Decode Base64.encode where
  forward _ _ := rfl
  backward _ t := by rw [Engine.run, Base64.decode_encode]; rfl
  visible _ visible := Base64.blank_encode (ne_nil_of_blank visible)

theorem undone_percent : Undone .urlEncode .urlDecode Percent.encode where
  forward _ _ := rfl
  backward _ t := by rw [Engine.run, Percent.decode_encode]; rfl
  visible _ visible := Percent.blank_encode (ne_nil_of_blank visible)

theorem undone_rot13 : Undone .rot13 .rot13 Rot13.encode where
  forward _ _ := rfl
  backward _ t := by rw [Engine.run, Rot13.encode_encode]
  visible t visible := by rw [Rot13.blank_encode, visible]

/-- The slugs of the converters that encode, rotation being its own reverse. -/
def encoders : List Text := ["base64-encode", "url-encode", "rot13-encode", "rot13-decode"]

theorem exists_undone {slug : Text} (encoder : slug ∈ encoders) :
    ∃ converter reverse engine engine' encode, converter.slug = slug ∧
      Opposite converter reverse engine engine' ∧ Undone engine engine' encode := by
  simp only [encoders, List.mem_cons, List.not_mem_nil, or_false] at encoder
  rcases encoder with rfl | rfl | rfl | rfl
  · exact ⟨Converter.catalogue[11], Converter.catalogue[12], _, _, _, rfl,
      opposite_of_mem (List.getElem_mem _) (List.getElem_mem _) (by decide) (by decide)
        rfl rfl rfl rfl, undone_base64⟩
  · exact ⟨Converter.catalogue[13], Converter.catalogue[14], _, _, _, rfl,
      opposite_of_mem (List.getElem_mem _) (List.getElem_mem _) (by decide) (by decide)
        rfl rfl rfl rfl, undone_percent⟩
  · exact ⟨Converter.catalogue[15], Converter.catalogue[16], _, _, _, rfl,
      opposite_of_mem (List.getElem_mem _) (List.getElem_mem _) (by decide) (by decide)
        rfl rfl rfl rfl, undone_rot13⟩
  · exact ⟨Converter.catalogue[16], Converter.catalogue[15], _, _, _, rfl,
      opposite_of_mem (List.getElem_mem _) (List.getElem_mem _) (by decide) (by decide)
        rfl rfl rfl rfl, undone_rot13⟩

theorem convert_eq {converter : Converter} {engine : Engine} {t : Text}
    (known : Converter.ofSlug? converter.slug = some converter)
    (runs : converter.engine? = some engine) (visible : Text.blank t = false)
    (given : List (Text × Json)) :
    convert converter.slug t given =
      (engine.run (Setting.resolve converter.settings given) t).mapError
        (.refused converter.title) := by
  rw [convert, visible, known]
  simp only [Bool.false_eq_true, if_false, runs]

section

variable {converter reverse : Converter} {engine engine' : Engine} {encode : Text → Text} {t : Text}
  (opposite : Opposite converter reverse engine engine') (undone : Undone engine engine' encode)
  (visible : Text.blank t = false) (given : List (Text × Json))

include opposite undone visible

theorem convert_forward : convert converter.slug t given = .ok (encode t) := by
  rw [convert_eq opposite.known opposite.runs visible, undone.forward]
  rfl

theorem convert_backward : convert reverse.slug (encode t) given = .ok t := by
  rw [convert_eq opposite.known' opposite.runs' (undone.visible t visible), undone.backward]
  rfl

end

namespace Desk

/-! ## Sessions -/

/-- After each step the output is that of what is entered. -/
theorem output_step (s : State) (step : Step) :
    (s.step step).state.output =
      (outcome (s.step step).state.slug (s.step step).state.text (s.step step).state.svgo
        (s.step step).state.minify).output := rfl

theorem output_of_mem_run {s : State} {steps : List Step} {screen : Screen}
    (member : screen ∈ s.run steps) :
    screen.state.output =
      (outcome screen.state.slug screen.state.text screen.state.svgo screen.state.minify).output := by
  induction steps generalizing s with
  | nil => cases member
  | cons step steps ih =>
      rcases List.mem_cons.mp member with rfl | later
      · exact output_step s step
      · exact ih later

theorem outcome_of_convert {slug t output : Text} {svgo minify : Bool} {converter : Converter}
    (known : Converter.ofSlug? slug = some converter) (visible : Text.blank output = false)
    (converted : ∀ given, convert slug t given = .ok output) :
    outcome slug t svgo minify =
      { output, status := "Converted with " ++ converter.title ++ ['.'] } := by
  have some : output.isEmpty = false := by
    cases output with
    | nil => cases visible
    | cons c output => rfl
  rw [outcome, converted]
  simp only [some, Bool.false_eq_true, if_false, titleOf, known, Option.map_some, Option.getD_some]

/-- A swap to the reverse converter, whose output is known. -/
theorem step_swap {s : State} {reverse : Converter} {output : Text}
    (there : Converter.reverse? s.slug = some reverse)
    (known : Converter.ofSlug? reverse.slug = some reverse) (visible : Text.blank output = false)
    (converted : ∀ given, convert reverse.slug s.output given = .ok output) :
    s.step .swap =
      { state := { s with slug := reverse.slug, text := s.output, output }
        status := "Converted with " ++ reverse.title ++ ['.']
        banner := banner s.output reverse.slug
        note? := some [] } := by
  have swapped : Desk.swap s.slug s.text s.output = ⟨some reverse.slug, s.output, []⟩ := by
    rw [Desk.swap, there]
  simp only [State.step, State.enter, swapped, Option.getD_some,
    outcome_of_convert known visible converted]

/-- An encoder loses nothing, and a session that stands at one is where it was after two
swaps. -/
theorem swap_lossless {slug t : Text} (encoder : slug ∈ encoders) (visible : Text.blank t = false) :
    ∃ reverse encoded, Converter.reverse? slug = some reverse ∧
      (∀ given, convert slug t given = .ok encoded) ∧
      (∀ given, convert reverse.slug encoded given = .ok t) ∧
      ∀ steps, ∀ screen ∈ State.start.run steps,
        screen.state.slug = slug → screen.state.text = t →
          (screen.state.step .swap).state =
              { screen.state with slug := reverse.slug, text := encoded, output := t } ∧
            (screen.state.step .swap).status = "Converted with " ++ reverse.title ++ ['.'] ∧
            ((screen.state.step .swap).state.step .swap).state = screen.state := by
  obtain ⟨converter, reverse, engine, engine', encode, rfl, opposite, undone⟩ :=
    exists_undone encoder
  have forward := convert_forward opposite undone visible
  have backward := convert_backward opposite undone visible
  have visible' := undone.visible t visible
  refine ⟨reverse, encode t, opposite.there, forward, backward, ?_⟩
  rintro steps ⟨⟨slug, text, svgo, minify, output⟩, status, banner, note?⟩ reached rfl rfl
  have shown : output = encode text := by
    have := output_of_mem_run reached
    rw [outcome_of_convert opposite.known visible' forward] at this
    exact this
  subst shown
  rw [step_swap opposite.there opposite.known' visible backward]
  refine ⟨rfl, rfl, ?_⟩
  rw [step_swap opposite.back opposite.known visible' forward]

/-- A text with white space at both ends. -/
def spacedGreeting : Text := " grüße\n"

/-- The screen of a session that stands at an encoder with this text. -/
def greetingScreen : Screen :=
  (State.start.step (.select "base64-encode")).state.step (.text spacedGreeting)

theorem swap_lossless_spacedGreeting :
    "base64-encode".toList ∈ encoders ∧ Text.blank spacedGreeting = false ∧
      greetingScreen ∈ State.start.run [.select "base64-encode", .text spacedGreeting] ∧
      greetingScreen.state.slug = "base64-encode" ∧ greetingScreen.state.text = spacedGreeting ∧
      ((greetingScreen.state.step .swap).state.step .swap).state = greetingScreen.state := by
  have encoder : "base64-encode".toList ∈ encoders := List.mem_cons_self
  have visible : Text.blank spacedGreeting = false := by decide
  have reached : greetingScreen ∈
      State.start.run [.select "base64-encode", .text spacedGreeting] :=
    List.mem_cons_of_mem _ List.mem_cons_self
  obtain ⟨reverse, encoded, -, -, -, session⟩ := swap_lossless encoder visible
  exact ⟨encoder, visible, reached, rfl, rfl, (session _ _ reached rfl rfl).2.2⟩

end Desk
end Recast
