import Mathlib.Data.List.DropRight
import Recast.Proofs.Markup.Part

/-! # Renamings in any order

A rule that renames an attribute looks at what stands before an equals sign and at nothing else,
and writes a name that no rule of its table takes for an old one. So the rules of a table do not
see each other: any order gives the same text, and a text that was renamed stays.
-/

namespace Recast.Markup

open Text

/-! ## Rules of a table -/

/-- A rule of a table: the name that is renamed, in small letters, and the new one. -/
structure Rule where
  name : String
  new : String
  caseless : Bool := false
  some : name.toList ≠ [] := by decide
  signless : '=' ∉ name.toList := by decide
  clean : '=' ∉ new.toList := by decide
  small : name.toList.map fold = name.toList := by decide
  deriving DecidableEq

/-- The last run of word characters, which is empty if the text ends in another sign. -/
def lastRun (t : Text) : Text := t.rtakeWhile isWord

theorem lastRun_append {front : Text} (starts : startsWord front.getLast? = true) (t : Text) :
    lastRun (front ++ t) = lastRun t := by
  induction t using List.reverseRecOn with
  | nil =>
      cases front using List.reverseRecOn with
      | nil => rfl
      | append_singleton front c =>
          rw [List.getLast?_concat] at starts
          rw [List.append_nil]
          exact List.rtakeWhile_concat_neg isWord front c (by simpa [startsWord] using starts)
  | append_singleton t c ih =>
      unfold lastRun at ih ⊢
      rw [← List.append_assoc]
      by_cases letter : isWord c = true
      · rw [List.rtakeWhile_concat_pos _ _ _ letter, List.rtakeWhile_concat_pos _ _ _ letter, ih]
      · rw [List.rtakeWhile_concat_neg _ _ _ letter, List.rtakeWhile_concat_neg _ _ _ letter]

theorem lastRun_map_fold (t : Text) : lastRun (t.map fold) = (lastRun t).map fold := by
  have same : isWord ∘ fold = isWord := funext isWord_fold
  rw [lastRun, lastRun, List.rtakeWhile, List.rtakeWhile, ← List.map_reverse, List.takeWhile_map,
    same, List.map_reverse]

namespace Rule

variable {a b : Rule} {t word front : Text}

def run (a : Rule) : Text → Text :=
  if a.caseless then renameCaseless a.name a.new else rename a.name a.new

/-- Is the word one that the rule renames? -/
def old (a : Rule) (word : Text) : Bool :=
  if a.caseless then word.map fold = a.name else word = a.name

theorem map_fold_of_old (known : a.old word = true) : word.map fold = a.name := by
  unfold old at known
  split at known
  · exact of_decide_eq_true known
  · rw [of_decide_eq_true known, a.small]

/-- What the rule does before an equals sign. -/
def onPart (a : Rule) : Text → Text := renameEnd a.old a.new none

theorem exists_spots (a : Rule) : ∃ here width, Spots here a.old width ∧
    a.run = replaceFound here width a.new none := by
  unfold run old
  cases a.caseless with
  | false => exact ⟨_, _, spots_exact a.some a.signless, rfl⟩
  | true => exact ⟨_, _, spots_caseless a.some a.signless, rfl⟩

theorem relabels (a : Rule) : Relabels a.onPart a.run := by
  obtain ⟨here, width, spots, same⟩ := a.exists_spots
  rw [same]
  exact spots.relabels a.clean

theorem onPart_cases (a : Rule) (t : Text) :
    (∃ front word, t = front ++ word ∧ a.old word = true ∧ startsWord front.getLast? = true ∧
        a.onPart t = front ++ a.new) ∨
      (¬ EndsIn a.old t ∧ a.onPart t = t) := by
  obtain ⟨here, width, spots, -⟩ := a.exists_spots
  exact spots.renameEnd_cases _ t

theorem onPart_of_not_endsIn (apart : ¬ EndsIn a.old t) : a.onPart t = t :=
  renameEnd_of_not_endsIn apart

/-- The old name of `b` does not end in that of `a`, and the new name of `a` does not look like
an end of the old one of `b`. -/
def Apart (a b : Rule) : Prop :=
  ¬ a.name.toList <:+ b.name.toList ∧ lastRun (a.new.toList.map fold) ≠ lastRun b.name

instance : DecidableRel Apart := fun _ _ => inferInstanceAs (Decidable (_ ∧ _))

/-- The new name is no old one, or it is the old one in another case. -/
def Settled (a : Rule) : Prop :=
  lastRun (a.new.toList.map fold) = lastRun a.name → a.new.toList.map fold = a.name

instance : DecidablePred Settled := fun _ => inferInstanceAs (Decidable (_ → _))

/-- A text in small letters ends in the name that its end is one of. -/
theorem suffix_of_endsIn (ends : EndsIn a.old t) : a.name.toList <:+ t.map fold := by
  obtain ⟨front, word, rfl, known, -⟩ := ends
  rw [List.map_append, map_fold_of_old known]
  exact List.suffix_append _ _

theorem lastRun_of_endsIn (ends : EndsIn a.old t) : (lastRun t).map fold = lastRun a.name := by
  obtain ⟨front, word, rfl, known, starts⟩ := ends
  rw [lastRun_append starts, ← lastRun_map_fold, map_fold_of_old known]

/-- No part is renamed by two rules. -/
theorem not_endsIn_both (apart : Apart a b) (apart' : Apart b a) (ends : EndsIn a.old t) :
    ¬ EndsIn b.old t := by
  intro ends'
  rcases List.suffix_or_suffix_of_suffix (suffix_of_endsIn ends) (suffix_of_endsIn ends') with
    shorter | shorter
  · exact apart.1 shorter
  · exact apart'.1 shorter

/-- What one rule wrote is nothing for another one. -/
theorem not_endsIn_new (apart : Apart a b) (starts : startsWord front.getLast? = true) :
    ¬ EndsIn b.old (front ++ a.new.toList) := by
  intro ends
  have same := lastRun_of_endsIn ends
  rw [lastRun_append starts, ← lastRun_map_fold] at same
  exact apart.2 same

/-- Where one rule renames, the other one does nothing before and after. -/
theorem onPart_comm_of_endsIn (apart : Apart a b) (apart' : Apart b a) (ends : EndsIn a.old t) :
    b.onPart (a.onPart t) = a.onPart (b.onPart t) := by
  rw [onPart_of_not_endsIn (not_endsIn_both apart apart' ends)]
  rcases a.onPart_cases t with ⟨front, word, -, -, starts, same⟩ | ⟨none, -⟩
  · rw [same, onPart_of_not_endsIn (not_endsIn_new apart starts)]
  · exact absurd ends none

theorem onPart_comm (apart : Apart a b) (apart' : Apart b a) (t : Text) :
    b.onPart (a.onPart t) = a.onPart (b.onPart t) := by
  by_cases ends : EndsIn a.old t
  · exact onPart_comm_of_endsIn apart apart' ends
  · by_cases ends' : EndsIn b.old t
    · exact (onPart_comm_of_endsIn apart' apart ends').symm
    · rw [onPart_of_not_endsIn ends, onPart_of_not_endsIn ends', onPart_of_not_endsIn ends]

theorem onPart_onPart (settled : a.Settled) (t : Text) : a.onPart (a.onPart t) = a.onPart t := by
  rcases a.onPart_cases t with ⟨front, word, -, -, starts, same⟩ | ⟨-, same⟩
  · rw [same]
    rcases a.onPart_cases (front ++ a.new) with ⟨front', word', spelled, known, starts', same'⟩ |
      ⟨-, same'⟩
    · -- The new name is renamed once more, so it is an old one and is written as it was.
      have runs : lastRun (a.new.toList.map fold) = lastRun a.name := by
        rw [lastRun_map_fold, ← lastRun_append starts]
        exact lastRun_of_endsIn ⟨front', word', spelled, known, starts'⟩
      have long : a.new.toList.length = word'.length := by
        rw [← List.length_map fold, settled runs, ← map_fold_of_old known, List.length_map]
      rw [same', (List.append_inj' spelled long).1]
    · exact same'
  · rw [same, same]

theorem run_comm (apart : Apart a b) (apart' : Apart b a) (t : Text) :
    b.run (a.run t) = a.run (b.run t) :=
  (a.relabels.comp b.relabels).ext (b.relabels.comp a.relabels)
    (fun part _ => onPart_comm apart apart' part) t

theorem run_run (settled : a.Settled) (t : Text) : a.run (a.run t) = a.run t :=
  (a.relabels.comp a.relabels).ext a.relabels (fun part _ => onPart_onPart settled part) t

end Rule

/-! ## Tables -/

/-- Rules that neither see each other nor what they wrote. -/
structure Independent (rules : List (Text → Text)) : Prop where
  commute : ∀ r ∈ rules, ∀ s ∈ rules, ∀ t, s (r t) = r (s t)
  settled : ∀ r ∈ rules, ∀ t, r (r t) = r t

/-- Run rules one after the other. -/
abbrev runAll (rules : List (Text → Text)) (t : Text) : Text := rules.foldl (fun t r => r t) t

namespace Independent

variable {rules rules' : List (Text → Text)} {r : Text → Text}

theorem runAll_perm (h : Independent rules) (perm : rules'.Perm rules) (t : Text) :
    runAll rules' t = runAll rules t :=
  (perm.symm.foldl_eq' h.commute t).symm

theorem tail (h : Independent (r :: rules)) : Independent rules where
  commute s member s' member' := h.commute s (.tail r member) s' (.tail r member')
  settled s member := h.settled s (.tail r member)

theorem runAll_comm (h : Independent (r :: rules)) (t : Text) :
    runAll rules (r t) = r (runAll rules t) := by
  have member : r ∈ r :: rules := List.mem_cons_self
  have each := fun s inside => h.commute r member s (List.mem_cons_of_mem r inside)
  clear h member
  induction rules generalizing t with
  | nil => rfl
  | cons s rules ih =>
      rw [List.forall_mem_cons] at each
      show runAll rules (s (r t)) = r (runAll rules (s t))
      rw [each.1 t, ih _ each.2]

theorem runAll_runAll (h : Independent rules) (t : Text) :
    runAll rules (runAll rules t) = runAll rules t := by
  induction rules generalizing t with
  | nil => rfl
  | cons r rules ih =>
      show runAll rules (r (runAll rules (r t))) = runAll rules (r t)
      rw [← h.runAll_comm, h.settled r List.mem_cons_self, ih h.tail]

/-- Rules of a table are independent if their names are, which can be tested. -/
theorem of_table (table : List Rule) (apart : ∀ a ∈ table, ∀ b ∈ table, a ≠ b → a.Apart b)
    (settled : ∀ a ∈ table, a.Settled) : Independent (table.map Rule.run) where
  commute r member s member' t := by
    obtain ⟨a, listed, rfl⟩ := List.mem_map.mp member
    obtain ⟨b, listed', rfl⟩ := List.mem_map.mp member'
    by_cases same : a = b
    · rw [same]
    · exact Rule.run_comm (apart a listed b listed' same) (apart b listed' a listed (Ne.symm same)) t
  settled r member t := by
    obtain ⟨a, listed, rfl⟩ := List.mem_map.mp member
    exact Rule.run_run (settled a listed) t

end Independent

def pageTable : List Rule :=
  [{ name := "class", new := "className" }, { name := "for", new := "htmlFor" },
    { name := "onchange", new := "onChange", caseless := true },
    { name := "onclick", new := "onClick", caseless := true }]

def drawingTable : List Rule :=
  [{ name := "class", new := "className" }, { name := "stroke-width", new := "strokeWidth" },
    { name := "stroke-linecap", new := "strokeLinecap" },
    { name := "stroke-linejoin", new := "strokeLinejoin" },
    { name := "fill-rule", new := "fillRule" }, { name := "clip-rule", new := "clipRule" }]

theorem independent_pageRenames : Independent pageRenames :=
  .of_table pageTable (by decide) (by decide)

theorem independent_drawingRenames : Independent drawingRenames :=
  .of_table drawingTable (by decide) (by decide)

/-- Renaming once more changes nothing, and the order of the rules is of no account. -/
theorem renaming_settled (t : Text) :
    pageToComponent (pageToComponent t) = pageToComponent t ∧
    drawingToComponent false (drawingToComponent false t) = drawingToComponent false t ∧
    (∀ rules : List (Text → Text), rules.Perm pageRenames →
      runAll rules t = pageToComponent t) ∧
    ∀ rules : List (Text → Text), rules.Perm drawingRenames →
      runAll rules t = drawingToComponent false t :=
  ⟨independent_pageRenames.runAll_runAll t, independent_drawingRenames.runAll_runAll t,
    fun _ perm => independent_pageRenames.runAll_perm perm t,
    fun _ perm => independent_drawingRenames.runAll_perm perm t⟩

/-- Names side by side, in other names and in other cases, with the last rule run first. -/
theorem renaming_settled_reversed :
    pageRenames.reverse.Perm pageRenames ∧
    runAll pageRenames.reverse "<p data-class=for=x ONCLICK='for=='>" =
      "<p data-className=htmlFor=x onClick='htmlFor=='>".toList ∧
    drawingRenames.reverse.Perm drawingRenames ∧
    runAll drawingRenames.reverse "<g clip-rule=fill-rule=x a-class=strokeWidth=b>" =
      "<g clipRule=fillRule=x a-className=strokeWidth=b>".toList := by
  have page := renaming_settled "<p data-class=for=x ONCLICK='for=='>"
  have drawing := renaming_settled "<g clip-rule=fill-rule=x a-class=strokeWidth=b>"
  refine ⟨List.reverse_perm _, ?_, List.reverse_perm _, ?_⟩
  · rw [page.2.2.1 _ (List.reverse_perm _)]
    decide
  · rw [drawing.2.2.2 _ (List.reverse_perm _)]
    decide

end Recast.Markup
