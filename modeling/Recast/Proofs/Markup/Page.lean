import Recast.Proofs.Markup.Renaming

/-! # Pages

A page is text between tags, and a tag has attributes with quoted values. It can be written with
other names and other values. The characters tell the parts apart, so two ways of writing a page
agree only when they agree on each part.
-/

namespace Recast.Markup

open Text

def inName (c : Char) : Bool := isWord c || c == '-'

/-- Text in which no tag begins. -/
structure Data where
  text : Text
  plain : '<' ∉ text

structure Attribute where
  /-- The white space before the name. -/
  gap : Text
  name : Text
  value : Text
  blank : ∀ c ∈ gap, isBlank c
  named : name ≠ []
  letters : ∀ c ∈ name, inName c
  unquoted : '"' ∉ value

structure Tag where
  /-- Is there a slash before the name? -/
  closing : Bool
  name : Text
  attributes : List Attribute
  /-- The white space behind the attributes. -/
  gap : Text
  /-- Is there a slash at the end? -/
  closed : Bool
  named : name ≠ []
  letters : ∀ c ∈ name, inName c
  apart : ∀ a ∈ attributes.head?, a.gap ≠ []
  blank : ∀ c ∈ gap, isBlank c

structure Page where
  pieces : List (Data × Tag)
  last : Data

namespace Page

def attributes (page : Page) : List Attribute := page.pieces.flatMap (·.2.attributes)

def data (page : Page) : List Data := page.pieces.map Prod.fst ++ [page.last]

end Page

/-! ## Writing -/

def slash (present : Bool) : Text := if present then ['/'] else []

section

variable (f g : Text → Text)

def Attribute.written (a : Attribute) : Text :=
  a.gap ++ (f a.name ++ '=' :: '"' :: (g a.value ++ ['"']))

def Tag.written (tag : Tag) : Text :=
  '<' :: (slash tag.closing ++ (tag.name ++
    (tag.attributes.flatMap (·.written f g) ++ (tag.gap ++ (slash tag.closed ++ ['>'])))))

/-- A page with `f` applied to the names of attributes, and `g` to their values and to the text
between tags. -/
def Page.written (page : Page) : Text :=
  page.pieces.flatMap (fun (data, tag) => g data.text ++ tag.written f g) ++ g page.last.text

end

def Page.text (page : Page) : Text := page.written id id

/-! ## Reading the parts -/

/-- No sign is new. -/
def KeepsSigns (f : Text → Text) : Prop :=
  ∀ c t, isWord c = false → c ∉ t → c ∉ f t

variable {f f' g g' : Text → Text}

theorem keepsSigns_id : KeepsSigns id := fun _ _ _ missing => missing

theorem Attribute.written_append (a : Attribute) (t : Text) :
    a.written f g ++ t = a.gap ++ (f a.name ++ '=' :: '"' :: (g a.value ++ '"' :: t)) := by
  simp [Attribute.written]

theorem Tag.written_append (tag : Tag) (t : Text) :
    tag.written f g ++ t = '<' :: (slash tag.closing ++ (tag.name ++
      (tag.attributes.flatMap (·.written f g) ++
        (tag.gap ++ (slash tag.closed ++ '>' :: t))))) := by
  simp [Tag.written]

theorem Attribute.equals_not_mem (a : Attribute) : '=' ∉ a.name := by
  intro member
  exact absurd (a.letters '=' member) (by decide)

/-- Do two ways of writing agree on an attribute? -/
def Attribute.Agrees (f f' g g' : Text → Text) (a : Attribute) : Prop :=
  f a.name = f' a.name ∧ g a.value = g' a.value

section

variable (hf : KeepsSigns f) (hf' : KeepsSigns f') (hg : KeepsSigns g) (hg' : KeepsSigns g')
variable {t t' : Text}
include hf hf' hg hg'

theorem Attribute.written_inj (a : Attribute) :
    a.written f g ++ t = a.written f' g' ++ t' ↔ a.Agrees f f' g g' ∧ t = t' := by
  have quote : isWord '"' = false := by decide
  rw [a.written_append, a.written_append, List.append_cancel_left_eq,
    append_cons_inj (hf _ _ isWord_equals a.equals_not_mem)
      (hf' _ _ isWord_equals a.equals_not_mem),
    List.cons_eq_cons, append_cons_inj (hg _ _ quote a.unquoted) (hg' _ _ quote a.unquoted)]
  simp only [true_and, Attribute.Agrees, and_assoc]

theorem attributes_written_inj (attributes : List Attribute) :
    attributes.flatMap (·.written f g) ++ t = attributes.flatMap (·.written f' g') ++ t' ↔
      (∀ a ∈ attributes, a.Agrees f f' g g') ∧ t = t' := by
  induction attributes with
  | nil => simp
  | cons a attributes ih =>
      rw [List.flatMap_cons, List.flatMap_cons, List.append_assoc, List.append_assoc,
        a.written_inj hf hf' hg hg', ih, List.forall_mem_cons, and_assoc]

theorem Tag.written_inj (tag : Tag) :
    tag.written f g ++ t = tag.written f' g' ++ t' ↔
      (∀ a ∈ tag.attributes, a.Agrees f f' g g') ∧ t = t' := by
  rw [tag.written_append, tag.written_append, List.cons_eq_cons, List.append_cancel_left_eq,
    List.append_cancel_left_eq, attributes_written_inj hf hf' hg hg', List.append_cancel_left_eq,
    List.append_cancel_left_eq, List.cons_eq_cons]
  simp only [true_and]

theorem Data.written_inj (data : Data) (tag : Tag) :
    g data.text ++ (tag.written f g ++ t) = g' data.text ++ (tag.written f' g' ++ t') ↔
      g data.text = g' data.text ∧ (∀ a ∈ tag.attributes, a.Agrees f f' g g') ∧ t = t' := by
  have sign : isWord '<' = false := by decide
  have inner : tag.written f g ++ t = tag.written f' g' ++ t' ↔ _ :=
    tag.written_inj hf hf' hg hg'
  rw [tag.written_append, tag.written_append, List.cons_eq_cons] at inner
  rw [tag.written_append, tag.written_append,
    append_cons_inj (hg _ _ sign data.plain) (hg' _ _ sign data.plain), inner]

/-- Two ways of writing agree on a page exactly when they agree on each of its parts. -/
theorem Page.written_inj (page : Page) :
    page.written f g = page.written f' g' ↔
      (∀ a ∈ page.attributes, a.Agrees f f' g g') ∧
        ∀ data ∈ page.data, g data.text = g' data.text := by
  obtain ⟨pieces, last⟩ := page
  simp only [Page.written, Page.attributes, Page.data]
  induction pieces with
  | nil => simp
  | cons piece pieces ih =>
      obtain ⟨data, tag⟩ := piece
      simp only [List.flatMap_cons, List.append_assoc, List.map_cons, List.cons_append,
        List.forall_mem_append, List.forall_mem_cons, data.written_inj hf hf' hg hg' tag, ih]
      exact ⟨fun ⟨text, inside, others, texts⟩ => ⟨⟨inside, others⟩, text, texts⟩,
        fun ⟨⟨inside, others⟩, text, texts⟩ => ⟨text, inside, others, texts⟩⟩

end

/-! ## Renaming the parts -/

/-- `f` applied to what comes after the last hyphen of a name. -/
def behindHyphen (f : Text → Text) (name : Text) : Text :=
  name.rdropWhile (· != '-') ++ f (name.rtakeWhile (· != '-'))

theorem behindHyphen_append {last : Text} (missing : '-' ∉ last) (front : Text) :
    behindHyphen f (front ++ '-' :: last) = front ++ '-' :: f last := by
  have parts : (front ++ '-' :: last).rdropWhile (· != '-') = front ++ ['-'] ∧
      (front ++ '-' :: last).rtakeWhile (· != '-') = last := by
    induction last using List.reverseRecOn with
    | nil =>
        have hyphen : ¬ ('-' != '-') = true := by decide
        exact ⟨List.rdropWhile_concat_neg (· != '-') front _ hyphen,
          List.rtakeWhile_concat_neg (· != '-') front _ hyphen⟩
    | append_singleton last c ih =>
        simp only [List.mem_append, List.mem_singleton, not_or] at missing
        have other : (c != '-') = true := bne_iff_ne.mpr (Ne.symm missing.2)
        obtain ⟨before, behind⟩ := ih missing.1
        rw [← List.cons_append, ← List.append_assoc,
          List.rdropWhile_concat_pos (· != '-') _ _ other,
          List.rtakeWhile_concat_pos (· != '-') _ _ other, before, behind]
        exact ⟨rfl, rfl⟩
  rw [behindHyphen, parts.1, parts.2, List.append_assoc]
  rfl

theorem behindHyphen_of_not_mem {name : Text} (missing : '-' ∉ name) :
    behindHyphen f name = f name := by
  have all : ∀ c ∈ name, (c != '-') = true := by
    intro c member
    refine bne_iff_ne.mpr ?_
    rintro rfl
    exact missing member
  rw [behindHyphen, List.rdropWhile_eq_nil_iff.mpr all, List.rtakeWhile_eq_self_iff.mpr all,
    List.nil_append]

theorem KeepsSigns.behindHyphen (h : KeepsSigns f) : KeepsSigns (behindHyphen f) := by
  intro c name solid missing
  rw [← List.rdropWhile_append_rtakeWhile (p := (· != '-')) (l := name), List.mem_append,
    not_or] at missing
  rw [Markup.behindHyphen, List.mem_append, not_or]
  exact ⟨missing.1, h c _ solid missing.2⟩

theorem hyphen_cases (name : Text) :
    '-' ∉ name ∨ ∃ front last, name = front ++ '-' :: last ∧ '-' ∉ last := by
  induction name using List.reverseRecOn with
  | nil => exact .inl List.not_mem_nil
  | append_singleton name c ih =>
      by_cases hyphen : c = '-'
      · exact .inr ⟨name, [], by rw [hyphen], List.not_mem_nil⟩
      · rcases ih with missing | ⟨front, last, rfl, missing⟩
        · exact .inl (by simp [missing, Ne.symm hyphen])
        · exact .inr ⟨front, last ++ [c], by simp, by simp [missing, Ne.symm hyphen]⟩

/-- The text is empty or begins with a sign that is no equals sign. -/
def Apart (t : Text) : Prop := ∀ c ∈ t.head?, isWord c = false ∧ c ≠ '='

theorem signs_of_blank {gap : Text} (blank : ∀ c ∈ gap, isBlank c) :
    ∀ c ∈ gap, isWord c = false ∧ c ≠ '=' := by
  intro c member
  have space := blank c member
  refine ⟨isWord_of_isBlank space, ?_⟩
  rintro rfl
  exact absurd space (by decide)

theorem signs_slash (present : Bool) : ∀ c ∈ slash present, isWord c = false ∧ c ≠ '=' := by
  cases present <;> decide

theorem apart_cons {c : Char} (sign : isWord c = false ∧ c ≠ '=') (t : Text) : Apart (c :: t) := by
  rintro d ⟨⟩
  exact sign

theorem Apart.append {s t : Text} (signs : ∀ c ∈ s, isWord c = false ∧ c ≠ '=') (apart : Apart t) :
    Apart (s ++ t) := by
  cases s with
  | nil => exact apart
  | cons c s => exact apart_cons (signs c List.mem_cons_self) _

/-- The name of a tag ends with it. -/
theorem Tag.apart_behind_name (tag : Tag) (t : Text) :
    Apart (tag.attributes.flatMap (·.written f g) ++
      (tag.gap ++ (slash tag.closed ++ '>' :: t))) := by
  cases given : tag.attributes with
  | nil =>
      rw [List.flatMap_nil, List.nil_append]
      exact .append (signs_of_blank tag.blank) (.append (signs_slash _) (apart_cons (by decide) t))
  | cons a attributes =>
      have some : a.gap ≠ [] := tag.apart a (by rw [given]; rfl)
      obtain ⟨c, gap, split⟩ := List.exists_cons_of_ne_nil some
      have sign := signs_of_blank a.blank c (by rw [split]; exact List.mem_cons_self)
      rw [List.flatMap_cons, List.append_assoc, a.written_append, split]
      exact apart_cons sign _

namespace Renames

variable {r : Text → Text}

theorem keepsSigns (h : Renames f r) : KeepsSigns r := fun _ _ solid missing =>
  h.not_mem solid missing

theorem nil (h : Renames f r) : r [] = [] := h.last [] nofun

theorem cons (h : Renames f r) {c : Char} (solid : isWord c = false) (other : c ≠ '=') (t : Text) :
    r (c :: t) = c :: r t := by
  simpa [h.nil] using h.parts solid other [] t

theorem signs_append (h : Renames f r) {s : Text} (signs : ∀ c ∈ s, isWord c = false ∧ c ≠ '=')
    (t : Text) : r (s ++ t) = s ++ r t := by
  induction s with
  | nil => rfl
  | cons c s ih =>
      obtain ⟨⟨solid, other⟩, later⟩ := List.forall_mem_cons.mp signs
      rw [List.cons_append, h.cons solid other, ih later, List.cons_append]

theorem append_apart (h : Renames f r) {t : Text} (apart : Apart t) (s : Text) :
    r (s ++ t) = r s ++ r t := by
  cases t with
  | nil => rw [h.nil, List.append_nil, List.append_nil]
  | cons c t =>
      obtain ⟨solid, other⟩ := apart c rfl
      rw [h.parts solid other, h.cons solid other]

/-- Of the name of an attribute, the part behind the last hyphen is renamed. -/
theorem name_equals (h : Renames f r) {name : Text} (letters : ∀ c ∈ name, inName c) (t : Text) :
    r (name ++ '=' :: t) = behindHyphen f name ++ '=' :: r t := by
  have run {s : Text} (within : ∀ c ∈ s, inName c) (missing : '-' ∉ s) : ∀ c ∈ s, isWord c := by
    intro c member
    have other : c ≠ '-' := by
      rintro rfl
      exact missing member
    simpa [inName, other] using within c member
  rcases hyphen_cases name with missing | ⟨front, last, rfl, missing⟩
  · rw [behindHyphen_of_not_mem missing, h.step name '=' t (run letters missing) isWord_equals,
      if_pos rfl]
  · obtain ⟨before, behind⟩ := List.forall_mem_append.mp letters
    have kept : r front = front := h.eq_self_of_not_mem fun member =>
      absurd (before '=' member) (by decide)
    rw [behindHyphen_append missing, List.append_assoc, List.cons_append,
      h.parts (by decide) (by decide), kept,
      h.step last '=' t (run (List.forall_mem_cons.mp behind).2 missing) isWord_equals, if_pos rfl]
    simp

theorem attribute_written (h : Renames f r) (a : Attribute) (t : Text) :
    r (a.written id id ++ t) = a.written (behindHyphen f) r ++ r t := by
  rw [a.written_append, a.written_append, h.signs_append (signs_of_blank a.blank), id, id,
    h.name_equals a.letters, h.cons (by decide) (by decide), h.parts (by decide) (by decide)]

theorem attributes_written (h : Renames f r) (attributes : List Attribute) (t : Text) :
    r (attributes.flatMap (·.written id id) ++ t) =
      attributes.flatMap (·.written (behindHyphen f) r) ++ r t := by
  induction attributes with
  | nil => rfl
  | cons a attributes ih =>
      rw [List.flatMap_cons, List.flatMap_cons, List.append_assoc, List.append_assoc,
        h.attribute_written, ih]

theorem tag_written (h : Renames f r) (tag : Tag) (t : Text) :
    r (tag.written id id ++ t) = tag.written (behindHyphen f) r ++ r t := by
  have kept : r tag.name = tag.name := h.eq_self_of_not_mem fun member =>
    absurd (tag.letters '=' member) (by decide)
  rw [tag.written_append, tag.written_append, h.cons (by decide) (by decide),
    h.signs_append (signs_slash _), h.append_apart (tag.apart_behind_name _), kept,
    h.attributes_written, h.signs_append (signs_of_blank tag.blank), h.signs_append (signs_slash _),
    h.cons (by decide) (by decide)]

/-- Of a page, the parts of names behind hyphens are renamed, and values and text each on its
own. -/
theorem page_written (h : Renames f r) (page : Page) :
    r page.text = page.written (behindHyphen f) r := by
  obtain ⟨pieces, last⟩ := page
  simp only [Page.text, Page.written, id]
  induction pieces with
  | nil => rfl
  | cons piece pieces ih =>
      obtain ⟨data, tag⟩ := piece
      have begins : Apart (tag.written id id ++ pieces.flatMap (fun (data, tag) =>
          data.text ++ tag.written id id) ++ last.text) := apart_cons (by decide) _
      simp only [List.flatMap_cons, List.append_assoc] at ih begins ⊢
      rw [h.append_apart begins, h.tag_written, ih]

end Renames

end Recast.Markup
