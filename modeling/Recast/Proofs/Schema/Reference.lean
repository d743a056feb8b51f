import Recast.Proofs.Schema.Validation
import Recast.Proofs.Text.Cut

/-! # Where references lead

A reference to a key of a document's definitions resolves to the name that the definition
has been given, whatever characters are in the key.
-/

namespace Recast.Schema

open Text Json

/-! ## Tokens -/

/-- A key with only its tildes escaped. -/
def escapeTilde (key : Text) : Text := key.flatMap fun c => if c = '~' then ['~', '0'] else [c]

/-- A text starts with a mark of two characters only when it starts with the first. -/
theorem not_prefix_of_ne {a b c : Char} (other : c ≠ a) (rest : Text) : ¬ [a, b] <+: c :: rest := by
  intro start
  exact other (List.cons_prefix_cons.mp start).1.symm

theorem replace_escapeToken (key : Text) :
    replace ['~', '1'] ['/'] (escapeToken key) = escapeTilde key := by
  induction key with
  | nil => rfl
  | cons c key ih =>
      simp only [escapeToken, escapeTilde, List.flatMap_cons] at ih ⊢
      by_cases tilde : c = '~'
      · have first (rest : Text) : ¬ ['~', '1'] <+: '~' :: '0' :: rest := by
          simp [List.cons_prefix_cons]
        rw [if_pos tilde, if_pos tilde, List.cons_append, List.singleton_append,
          replace_cons (first _), replace_cons (not_prefix_of_ne (by decide) _), ih]
        rfl
      by_cases slash : c = '/'
      · rw [if_neg tilde, if_pos slash, if_neg tilde, replace_append (by decide), ih, slash]
      · rw [if_neg tilde, if_neg slash, if_neg tilde, List.singleton_append,
          replace_cons (not_prefix_of_ne tilde _), ih]
        rfl

theorem replace_escapeTilde (key : Text) : replace ['~', '0'] ['~'] (escapeTilde key) = key := by
  induction key with
  | nil => rfl
  | cons c key ih =>
      simp only [escapeTilde, List.flatMap_cons] at ih ⊢
      by_cases tilde : c = '~'
      · rw [if_pos tilde, replace_append (by decide), ih, tilde]
        rfl
      · rw [if_neg tilde, List.singleton_append, replace_cons (not_prefix_of_ne tilde _), ih]

theorem unescapeToken_escapeToken (key : Text) : unescapeToken (escapeToken key) = key := by
  have first := replace_escapeToken key
  have second := replace_escapeTilde key
  rw [← first] at second
  exact second

theorem slash_not_mem_escapeToken (key : Text) : '/' ∉ escapeToken key := by
  intro member
  obtain ⟨c, -, member⟩ := List.mem_flatMap.mp member
  split at member
  · simp at member
  · split at member
    · simp at member
    · rename_i other
      exact other (List.mem_singleton.mp member).symm

theorem pointer_inj {key key' : Text} : pointer key = pointer key' ↔ key = key' := by
  constructor
  · intro same
    rw [← unescapeToken_escapeToken key, List.append_cancel_left same, unescapeToken_escapeToken]
  · rintro rfl
    rfl

/-! ## Definitions -/

/-- Schemas under new keys are taken over. -/
def addMissing (found members : List (Text × Json)) : List (Text × Json) :=
  members.foldl (fun found (key, schema) =>
    if (found.lookup key).isSome then found else found ++ [(key, schema)]) found

theorem lookup_addMissing (key : Text) (found members : List (Text × Json)) :
    (addMissing found members).lookup key = (found.lookup key).or (members.lookup key) := by
  induction members generalizing found with
  | nil => simp [addMissing]
  | cons member rest ih =>
      obtain ⟨k, v⟩ := member
      have step : addMissing found ((k, v) :: rest) =
          addMissing (if (found.lookup k).isSome then found else found ++ [(k, v)]) rest := rfl
      rw [step, ih, List.lookup_cons]
      by_cases same : key = k
      · subst same
        cases known : found.lookup key <;> simp [known, List.lookup_append]
      · have other : (key == k) = false := by simpa using same
        split <;> simp [List.lookup_append, List.lookup_cons, other]

theorem lookup_definitionSchemas {document : Json} {key : Text} {schema : Json}
    (h : (defsOf document).lookup key = some schema) :
    (definitionSchemas document).lookup key = some schema := by
  unfold defsOf at h
  split at h
  · rename_i defs found
    have first : (addMissing [] defs).lookup key = defs.lookup key :=
      lookup_addMissing key [] defs
    simp only [definitionSchemas, containers, List.foldl_cons, List.foldl_nil, found]
    split
    · rename_i members _
      have whole := lookup_addMissing key (addMissing [] defs) members
      rw [first, h, Option.some_or] at whole
      exact whole
    · exact first.trans h
  · cases h

theorem find?_nameDefinitions {key : Text} {schema : Json} (pool : NamePool)
    {schemas : List (Text × Json)} (h : schemas.lookup key = some schema) :
    ∃ d ∈ nameDefinitions pool schemas, d.schema = schema ∧
      (nameDefinitions pool schemas).find? (fun d => d.key = key) = some d := by
  induction schemas generalizing pool with
  | nil => cases h
  | cons member rest ih =>
      obtain ⟨k, s⟩ := member
      simp only [nameDefinitions]
      rw [List.lookup_cons] at h
      by_cases same : key = k
      · subst same
        simp only [beq_self_eq_true, Option.some.injEq] at h
        exact ⟨_, List.mem_cons_self, h, by simp⟩
      · have other : (key == k) = false := by simpa using same
        rw [other] at h
        obtain ⟨d, member, known, found⟩ := ih _ h
        refine ⟨d, List.mem_cons_of_mem _ member, known, ?_⟩
        rw [List.find?_cons_of_neg (by simpa using Ne.symm same), found]

/-- A reference to a definition resolves to its name. -/
theorem resolve_pointer {document : Json} {key : Text} {schema : Json}
    (h : (defsOf document).lookup key = some schema) :
    ∃ d ∈ definitions document, d.schema = schema ∧
      resolve (definitions document) (.string (pointer key)) = .named d.name := by
  obtain ⟨d, member, known, found⟩ :=
    find?_nameDefinitions (NamePool.claim Name.root []).2 (lookup_definitionSchemas h)
  refine ⟨d, member, known, ?_⟩
  have whole : pointer key ≠ "#" := fun same => List.cons_ne_nil _ _ (congrArg List.tail same)
  have path : after? "#/" (pointer key) = some ("$defs" ++ '/' :: escapeToken key) :=
    after?_eq_some.mpr rfl
  have tokens : splitOn '/' ("$defs" ++ '/' :: escapeToken key) =
      ["$defs".toList, escapeToken key] := by
    rw [splitOn_append_cons (by decide), splitOn_of_not_mem (slash_not_mem_escapeToken key)]
  have container : "$defs".toList ∈ containers := by simp [containers]
  simp only [resolve, if_neg whole, path, tokens, if_pos container, unescapeToken_escapeToken]
  rw [definitions, found]

theorem target?_pointer {document : Json} {key : Text} {schema : Json}
    (h : (defsOf document).lookup key = some schema) :
    target? document (pointer key) = some schema ∧ (key, schema) ∈ defsOf document := by
  rw [target?]
  generalize defsOf document = defs at h
  induction defs with
  | nil => cases h
  | cons member rest ih =>
      obtain ⟨k, s⟩ := member
      rw [List.lookup_cons] at h
      by_cases same : key = k
      · subst same
        simp only [beq_self_eq_true, Option.some.injEq] at h
        subst h
        simp
      · have other : (key == k) = false := by simpa using same
        rw [other] at h
        obtain ⟨found, member⟩ := ih h
        have apart : ¬ pointer k = pointer key := fun equal => same (pointer_inj.mp equal).symm
        rw [List.find?_cons_of_neg (by simpa using apart)]
        exact ⟨found, List.mem_cons_of_mem _ member⟩

end Recast.Schema
