import Recast.Desk.Session
import Recast.Proofs.Catalogue.Lookup
import Recast.Proofs.Catalogue.Resolution

/-! # Settings that are not read

Only two converters have a setting, and no swap leads to either of them. A box that the
converter at hand does not read can be ticked at will: selecting another converter resets it
before anything is made of it, so nothing else on the screen ever depends on it.
-/

namespace Recast

/-! ## Which converters have settings -/

namespace Converter

/-- The slug of the converter that reads `svgo`. -/
def drawingSlug : Text := "svg-to-jsx"

/-- The slug of the converter that reads `minify`. -/
def prettifySlug : Text := "json-prettify"

theorem setting_of_mem : ∀ converter ∈ catalogue, ∀ setting ∈ converter.settings,
    converter.slug = drawingSlug ∧ setting = svgo ∨
      converter.slug = prettifySlug ∧ setting = minify := by
  simp only [catalogue, List.forall_mem_cons, List.not_mem_nil, false_imp_iff, implies_true,
    and_true, true_and]
  exact ⟨.inl rfl, .inr rfl⟩

theorem setting_of_settingsOf {slug : Text} {setting : Setting}
    (member : setting ∈ settingsOf slug) :
    slug = drawingSlug ∧ setting = svgo ∨ slug = prettifySlug ∧ setting = minify := by
  cases known : ofSlug? slug with
  | none =>
      rw [settingsOf, known] at member
      cases member
  | some converter =>
      obtain ⟨offered, rfl⟩ := mem_of_ofSlug? known
      rw [settingsOf, known] at member
      exact setting_of_mem converter offered setting member

/-- Nothing reads what drawings become. -/
theorem source_ne_jsx : ∀ converter ∈ catalogue, converter.source ≠ .jsx := by
  decide

/-- Only one converter goes from a format to itself. -/
theorem slug_of_source_eq_target : ∀ converter ∈ catalogue,
    converter.source = converter.target → converter.slug = prettifySlug := by
  decide

theorem target_of_drawing : ∀ converter ∈ catalogue,
    converter.slug = drawingSlug → converter.target = .jsx := by
  decide

theorem target_of_prettify : ∀ converter ∈ catalogue,
    converter.slug = prettifySlug → converter.source = converter.target := by
  decide

/-- No swap leads to a converter that has a setting. -/
theorem slug_of_reverse? {slug : Text} {reverse : Converter}
    (there : reverse? slug = some reverse) :
    reverse.slug ≠ drawingSlug ∧ reverse.slug ≠ prettifySlug := by
  obtain ⟨converter, known, found⟩ := Option.bind_eq_some_iff.mp there
  obtain ⟨member, rfl⟩ := mem_of_ofSlug? known
  have member' := List.mem_of_find?_eq_some found
  have opposite := List.find?_some found
  simp only [ne_eq, decide_not, Bool.and_eq_true, Bool.not_eq_true', decide_eq_false_iff_not,
    decide_eq_true_eq] at opposite
  obtain ⟨⟨other, source⟩, target⟩ := opposite
  constructor
  · intro drawing
    apply source_ne_jsx converter member
    rw [← target, target_of_drawing reverse member' drawing]
  · intro prettify
    apply other
    have same := target_of_prettify reverse member' prettify
    rw [prettify, slug_of_source_eq_target converter member]
    rw [← target, ← source, same]

end Converter

/-- What a converter makes of a text depends on the values of its own settings only. -/
theorem convert_congr {slug t : Text} {given given' : List (Text × Json)}
    (same : ∀ setting ∈ Converter.settingsOf slug,
      Json.find? setting.key given' = Json.find? setting.key given) :
    convert slug t given' = convert slug t given := by
  unfold convert
  cases known : Converter.ofSlug? slug with
  | none => rfl
  | some converter =>
      have own : Converter.settingsOf slug = converter.settings := by
        rw [Converter.settingsOf, known]
        rfl
      simp only [Setting.resolve_congr (own ▸ same)]

namespace Desk

/-! ## Two sessions side by side -/

/-- Two steps at a converter that are the same but for a setting it does not read. -/
inductive Alike (slug : Text) : Step → Step → Prop where
  | same (step : Step) : Alike slug step step
  | svgo (unread : slug ≠ Converter.drawingSlug) (value value' : Bool) :
      Alike slug (.svgo value) (.svgo value')
  | minify (unread : slug ≠ Converter.prettifySlug) (value value' : Bool) :
      Alike slug (.minify value) (.minify value')

/-- Two sessions from a state on whose steps are alike, each at the converter that is selected
when it is taken. -/
inductive AlikeFrom : State → List Step → List Step → Prop where
  | nil {s : State} : AlikeFrom s [] []
  | cons {s : State} {step step' : Step} {steps steps' : List Step}
      (first : Alike s.slug step step') (later : AlikeFrom (s.step step).state steps steps') :
      AlikeFrom s (step :: steps) (step' :: steps')

/-- What a screen shows besides the check boxes. -/
structure Display where
  slug : Text
  text : Text
  output : Text
  status : Text
  banner : Text
  note? : Option Text
  deriving DecidableEq, Repr

def Screen.display (screen : Screen) : Display :=
  { slug := screen.state.slug
    text := screen.state.text
    output := screen.state.output
    status := screen.status
    banner := screen.banner
    note? := screen.note? }

/-- Two states that differ at most in the boxes that the converter at hand does not read. -/
structure State.Agrees (s s' : State) : Prop where
  slug : s'.slug = s.slug
  text : s'.text = s.text
  output : s'.output = s.output
  svgo : s.slug = Converter.drawingSlug → s'.svgo = s.svgo
  minify : s.slug = Converter.prettifySlug → s'.minify = s.minify

theorem State.Agrees.refl (s : State) : s.Agrees s := ⟨rfl, rfl, rfl, fun _ => rfl, fun _ => rfl⟩

theorem outcome_congr {slug t : Text} {svgo svgo' minify minify' : Bool}
    (svgo_eq : slug = Converter.drawingSlug → svgo' = svgo)
    (minify_eq : slug = Converter.prettifySlug → minify' = minify) :
    outcome slug t svgo' minify' = outcome slug t svgo minify := by
  unfold outcome
  rw [convert_congr]
  intro setting member
  rcases Converter.setting_of_settingsOf member with ⟨drawing, rfl⟩ | ⟨prettify, rfl⟩
  · rw [svgo_eq drawing]
    rfl
  · rw [minify_eq prettify]
    rfl

/-! ## What steps keep -/

/-- What alike steps enter into states that agree. -/
theorem State.Agrees.enter {s s' : State} {step step' : Step} (agrees : s.Agrees s')
    (alike : Alike s.slug step step') :
    (s.enter step).1.Agrees (s'.enter step').1 ∧ (s'.enter step').2 = (s.enter step).2 := by
  cases alike with
  | svgo unread value value' =>
      refine ⟨{ agrees with svgo := ?_ }, rfl⟩
      intro drawing
      exact absurd drawing unread
  | minify unread value value' =>
      refine ⟨{ agrees with minify := ?_ }, rfl⟩
      intro prettify
      exact absurd prettify unread
  | same step =>
      cases step with
      | select slug => exact ⟨⟨rfl, rfl, agrees.output, fun _ => rfl, fun _ => rfl⟩, rfl⟩
      | text value => exact ⟨{ agrees with text := rfl }, rfl⟩
      | svgo value => exact ⟨{ agrees with svgo := fun _ => rfl }, rfl⟩
      | minify value => exact ⟨{ agrees with minify := fun _ => rfl }, rfl⟩
      | swap =>
          simp only [State.enter, Desk.swap, agrees.slug, agrees.text, agrees.output]
          cases there : Converter.reverse? s.slug with
          | none => exact ⟨⟨rfl, rfl, rfl, agrees.svgo, agrees.minify⟩, trivial⟩
          | some reverse =>
              obtain ⟨drawing, prettify⟩ := Converter.slug_of_reverse? there
              refine ⟨⟨rfl, rfl, rfl, ?_, ?_⟩, trivial⟩
              · intro same
                exact absurd same drawing
              · intro same
                exact absurd same prettify

theorem State.Agrees.step {s s' : State} {step step' : Step} (agrees : s.Agrees s')
    (alike : Alike s.slug step step') :
    (s.step step).state.Agrees (s'.step step').state ∧
      (s'.step step').display = (s.step step).display := by
  obtain ⟨entered, note⟩ := agrees.enter alike
  have outcome := outcome_congr (t := (s.enter step).1.text) entered.svgo entered.minify
  have shown : (s'.step step').display = (s.step step).display := by
    simp only [Screen.display, State.step, entered.slug, entered.text, outcome, note]
  refine ⟨⟨entered.slug, entered.text, ?_, entered.svgo, entered.minify⟩, shown⟩
  exact congrArg Display.output shown

theorem State.Agrees.run {s s' : State} {steps steps' : List Step} (agrees : s.Agrees s')
    (alike : AlikeFrom s steps steps') :
    (s'.run steps').map Screen.display = (s.run steps).map Screen.display := by
  induction alike generalizing s' with
  | nil => rfl
  | cons first later ih =>
      obtain ⟨stays, shown⟩ := agrees.step first
      simp only [State.run, List.map_cons, shown, ih stays]

/-- Sessions that differ in settings only where they are not read show the same throughout. -/
theorem unread_settings_hidden {steps steps' : List Step}
    (alike : AlikeFrom State.start steps steps') :
    (State.start.run steps').map Screen.display = (State.start.run steps).map Screen.display :=
  (State.Agrees.refl State.start).run alike

/-- A session that ticks boxes at a converter without settings, swaps, and goes on to one that
reads a box. -/
def tickedSteps (svgo minify : Bool) : List Step :=
  [.select "base64-encode", .svgo svgo, .text "grüße", .minify minify, .swap,
    .select "json-prettify", .minify true, .svgo svgo]

theorem unread_settings_hidden_tickedSteps :
    AlikeFrom State.start (tickedSteps true false) (tickedSteps false true) ∧
      (State.start.run (tickedSteps false true)).map Screen.display =
        (State.start.run (tickedSteps true false)).map Screen.display := by
  have alike : AlikeFrom State.start (tickedSteps true false) (tickedSteps false true) := by
    apply AlikeFrom.cons (.same _)
    apply AlikeFrom.cons (.svgo (by decide) _ _)
    apply AlikeFrom.cons (.same _)
    apply AlikeFrom.cons (.minify (by decide) _ _)
    apply AlikeFrom.cons (.same _)
    apply AlikeFrom.cons (.same _)
    apply AlikeFrom.cons (.same _)
    apply AlikeFrom.cons (.svgo (by decide) _ _)
    exact .nil
  exact ⟨alike, unread_settings_hidden alike⟩

end Desk
end Recast
