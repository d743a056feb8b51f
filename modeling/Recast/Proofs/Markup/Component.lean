import Recast.Proofs.Markup.Page

/-! # Pages as component code

Four attributes have other names in component code, two of them in any case. The rules rename
them, but they also rename what follows a hyphen in another name, what stands before an equals
sign in a value or in text, and names that hold letters which only fold to ASCII.
-/

namespace Recast.Markup

open Text

/-! ## Names -/

/-- The name of an attribute in component code, where `lower` gives the letters of events. -/
def componentName (lower : Char → Char) (name : Text) : Text :=
  if name = "class" then "className"
  else if name = "for" then "htmlFor"
  else if name.map lower = "onchange" then "onChange"
  else if name.map lower = "onclick" then "onClick"
  else name

theorem componentName_cases (lower : Char → Char) (name : Text) :
    componentName lower name = name ∨ componentName lower name ∈
      ["className".toList, "htmlFor".toList, "onChange".toList, "onClick".toList] := by
  unfold componentName
  split_ifs <;> simp

theorem keepsSigns_componentName (lower : Char → Char) : KeepsSigns (componentName lower) := by
  intro c name solid missing
  rcases componentName_cases lower name with same | new
  · rwa [same]
  · have letters : ∀ word ∈ ["className".toList, "htmlFor".toList, "onChange".toList,
        "onClick".toList], ∀ d ∈ word, isWord d := by
      decide
    exact not_mem_run (letters _ new) solid

/-- One rule after the other is one renaming, since no new name is an old one. -/
theorem renames_pageToComponent : Renames (componentName fold) pageToComponent := by
  have ofClass : Renames _ (rename "class" "className") :=
    renames_rename (by decide) (by decide) (by decide)
  have ofLabel : Renames _ (rename "for" "htmlFor") :=
    renames_rename (by decide) (by decide) (by decide)
  have ofChange : Renames _ (renameCaseless "onchange" "onChange") :=
    renames_renameCaseless (by decide) (by decide) (by decide)
  have ofClick : Renames _ (renameCaseless "onclick" "onClick") :=
    renames_renameCaseless (by decide) (by decide) (by decide)
  refine (((ofClass.comp ofLabel).comp ofChange).comp ofClick).congr fun run => ?_
  unfold componentName
  by_cases isClass : run = "class"
  · subst isClass
    decide
  by_cases isFor : run = "for"
  · subst isFor
    decide
  by_cases isChange : run.map fold = "onchange"
  · simp only [isClass, isFor, isChange, if_true, if_false]
    decide
  · simp only [isClass, isFor, isChange, if_false]

/-! ## Places that are renamed by mistake -/

/-- In the text a word that is renamed stands before an equals sign. -/
def Mentions (t : Text) : Prop :=
  ∃ word, Assigned word t ∧ componentName fold word ≠ word

/-- The name ends in a hyphen and a word that is renamed, or it folds to the name of an event
without being that name in some case. -/
def Misnamed (name : Text) : Prop :=
  (∃ front last, name = front ++ '-' :: last ∧ componentName fold last ≠ last) ∨
    (name.map fold = "onclick" ∧ name.map Char.toLower ≠ "onclick")

theorem letters_of_renamed {word : Text} (renamed : componentName fold word ≠ word) :
    ∀ d ∈ word, isWord d := by
  have folded {start : Text} (letters : ∀ d ∈ start, isWord d) (same : word.map fold = start) :
      ∀ d ∈ word, isWord d := by
    intro d member
    refine isWord_of_fold (letters _ ?_)
    rw [← same]
    exact List.mem_map_of_mem member
  unfold componentName at renamed
  split_ifs at renamed with isClass isFor isChange isClick
  · rw [isClass]
    decide
  · rw [isFor]
    decide
  · exact folded (by decide) isChange
  · exact folded (by decide) isClick
  · exact absurd rfl renamed

theorem pageToComponent_eq_self_iff {t : Text} : pageToComponent t = t ↔ ¬ Mentions t := by
  rw [renames_pageToComponent.eq_self_iff]
  constructor
  · rintro stays ⟨word, assigned, renamed⟩
    exact renamed (stays word (letters_of_renamed renamed) assigned)
  · intro none word _ assigned
    by_contra renamed
    exact none ⟨word, assigned, renamed⟩

/-- A name with a hyphen is no name that is renamed. -/
theorem componentName_of_hyphen (lower : Char → Char) (keeps : lower '-' = '-') {name : Text}
    (hyphen : '-' ∈ name) : componentName lower name = name := by
  have inside : '-' ∈ name.map lower := by
    rw [← keeps]
    exact List.mem_map_of_mem hyphen
  unfold componentName
  split_ifs with isClass isFor isChange isClick
  · rw [isClass] at hyphen
    exact absurd hyphen (by decide)
  · rw [isFor] at hyphen
    exact absurd hyphen (by decide)
  · rw [isChange] at inside
    exact absurd inside (by decide)
  · rw [isClick] at inside
    exact absurd inside (by decide)
  · rfl

theorem map_fold_onchange_iff {name : Text} :
    name.map fold = "onchange" ↔ name.map Char.toLower = "onchange" :=
  ⟨map_toLower_of_map_fold (by decide), map_fold_of_map_toLower (by decide)⟩

/-- Folding gives another name than lower case only for a click with foreign letters. -/
theorem componentName_eq_iff {name : Text} :
    componentName fold name = componentName Char.toLower name ↔
      ¬ (name.map fold = "onclick" ∧ name.map Char.toLower ≠ "onclick") := by
  unfold componentName
  by_cases isClass : name = "class"
  · subst isClass
    decide
  by_cases isFor : name = "for"
  · subst isFor
    decide
  by_cases isChange : name.map fold = "onchange"
  · simp only [isClass, isFor, isChange, map_fold_onchange_iff.mp isChange, if_true, if_false]
    decide
  have notChange := mt map_fold_onchange_iff.mpr isChange
  by_cases isClick : name.map Char.toLower = "onclick"
  · have folds : name.map fold = "onclick" := map_fold_of_map_toLower (by decide) isClick
    rw [if_neg isChange, if_neg notChange, if_pos folds, if_pos isClick]
    simp only [isClick, ne_eq, not_true, and_false, not_false_iff]
  · simp only [isClass, isFor, isChange, notChange, isClick, if_false, ne_eq, not_false_iff,
      and_true]
    constructor
    · intro same folds
      rw [if_pos folds] at same
      rw [← same] at isClick
      exact isClick (by decide)
    · intro other
      rw [if_neg other]

theorem behindHyphen_eq_iff {name : Text} :
    behindHyphen (componentName fold) name = componentName Char.toLower name ↔
      ¬ Misnamed name := by
  constructor
  · rintro same (⟨front, last, rfl, renamed⟩ | foreign)
    · have missing : '-' ∉ last := fun hyphen =>
        renamed (componentName_of_hyphen fold (by decide) hyphen)
      rw [behindHyphen_append missing, componentName_of_hyphen Char.toLower (by decide) (by simp),
        List.append_cancel_left_eq, List.cons_eq_cons] at same
      exact renamed same.2
    · have missing : '-' ∉ name := by
        intro hyphen
        have inside := List.mem_map_of_mem (f := fold) hyphen
        rw [foreign.1] at inside
        exact absurd inside (by decide)
      rw [behindHyphen_of_not_mem missing] at same
      exact componentName_eq_iff.mp same foreign
  · intro fine
    rcases hyphen_cases name with missing | ⟨front, last, rfl, missing⟩
    · rw [behindHyphen_of_not_mem missing]
      exact componentName_eq_iff.mpr fun foreign => fine (.inr foreign)
    · have stays : componentName fold last = last := by
        by_contra renamed
        exact fine (.inl ⟨front, last, rfl, renamed⟩)
      rw [behindHyphen_append missing, stays,
        componentName_of_hyphen Char.toLower (by decide) (by simp)]

/-! ## Pages -/

/-- In a page, the parts of names behind hyphens are renamed, and each value and text as if it
stood alone. So exactly the attributes with other names are renamed if no name ends in such a
name or folds to it, and no value or text mentions one. -/
theorem pageToComponent_text (page : Page) :
    pageToComponent page.text =
      page.written (behindHyphen (componentName fold)) pageToComponent ∧
    (pageToComponent page.text = page.written (componentName Char.toLower) id ↔
      (∀ a ∈ page.attributes, ¬ Misnamed a.name ∧ ¬ Mentions a.value) ∧
        ∀ data ∈ page.data, ¬ Mentions data.text) := by
  have written := renames_pageToComponent.page_written page
  refine ⟨written, ?_⟩
  rw [written, page.written_inj (keepsSigns_componentName fold).behindHyphen
    (keepsSigns_componentName Char.toLower) renames_pageToComponent.keepsSigns keepsSigns_id]
  simp only [Attribute.Agrees, behindHyphen_eq_iff, id, pageToComponent_eq_self_iff]

example : pageToComponent "<label for=\"x\" class=\"y\" OnClick=\"go()\">" =
    "<label htmlFor=\"x\" className=\"y\" onClick=\"go()\">" := by
  decide

/-- A tag with two attributes, a text and the tag that closes it. -/
def anchorSample : Page where
  pieces := [
    ({ text := [], plain := by decide },
      { closing := false
        name := "a"
        attributes := [
          { gap := " ", name := "data-class", value := "x", blank := by decide, named := by decide
            letters := by decide, unquoted := by decide },
          { gap := " ", name := "href", value := "?for=1", blank := by decide, named := by decide
            letters := by decide, unquoted := by decide }]
        gap := []
        closed := false
        named := by decide
        letters := by decide
        apart := by decide
        blank := by decide }),
    ({ text := "class=2", plain := by decide },
      { closing := true, name := "a", attributes := [], gap := [], closed := false
        named := by decide, letters := by decide, apart := by decide, blank := by decide })]
  last := { text := [], plain := by decide }

/-- A name, a value and a text change that should stay. -/
theorem pageToComponent_misplaced :
    anchorSample.text = "<a data-class=\"x\" href=\"?for=1\">class=2</a>" ∧
    anchorSample.written (componentName Char.toLower) id = anchorSample.text ∧
    pageToComponent anchorSample.text =
      "<a data-className=\"x\" href=\"?htmlFor=1\">className=2</a>" := by
  decide

end Recast.Markup
