import Recast.Proofs.Markup.Renaming

/-! # Parts before equals signs

An attribute that is renamed stands at the end of what is before an equals sign, back to the
equals sign in front of it. So a rule is known from what it does to such parts, also where its
name has hyphens and is no run of word characters.
-/

namespace Recast.Markup

open Text

/-! ## Parts -/

/-- What stands before an equals sign, after the one in front of it, becomes its image under `f`,
and what comes after the last one stays. -/
structure Relabels (f r : Text → Text) : Prop where
  signless : ∀ part, '=' ∉ part → '=' ∉ f part
  last : ∀ part, '=' ∉ part → r part = part
  step : ∀ part rest, '=' ∉ part → r (part ++ '=' :: rest) = f part ++ '=' :: r rest

/-- A text has no equals sign, or it has one with a text behind it. -/
@[elab_as_elim]
theorem signInduction {motive : Text → Prop} (t : Text)
    (last : ∀ part, '=' ∉ part → motive part)
    (more : ∀ part rest, '=' ∉ part → motive rest → motive (part ++ '=' :: rest)) : motive t := by
  induction long : t.length using Nat.strong_induction_on generalizing t with
  | _ n ih =>
      by_cases sign : '=' ∈ t
      · obtain ⟨part, rest, rfl, signless⟩ := List.eq_append_cons_of_mem sign
        refine more part rest signless (ih _ ?_ _ rfl)
        rw [← long, List.length_append, List.length_cons]
        omega
      · exact last t sign

namespace Relabels

variable {f g r s : Text → Text}

theorem comp (h : Relabels f r) (h' : Relabels g s) :
    Relabels (fun part => g (f part)) (fun t => s (r t)) where
  signless part none := h'.signless _ (h.signless part none)
  last part none := by rw [h.last part none, h'.last part none]
  step part rest none := by rw [h.step part rest none, h'.step _ _ (h.signless part none)]

/-- What is done to the parts decides what is done to the text. -/
theorem ext (h : Relabels f r) (h' : Relabels g s) (same : ∀ part, '=' ∉ part → f part = g part)
    (t : Text) : r t = s t := by
  induction t using signInduction with
  | last part none => rw [h.last part none, h'.last part none]
  | more part rest none ih => rw [h.step part rest none, h'.step part rest none, same part none, ih]

end Relabels

/-! ## Endings -/

section

variable {old here : Text → Bool} {new t : Text} {width : Nat}

/-- Write `new` for the end of a part where a word starts and the end is one of `old`. -/
def renameEnd (old : Text → Bool) (new : Text) : Option Char → Text → Text
  | _, [] => []
  | before?, c :: rest =>
    if startsWord before? && old (c :: rest) then new else c :: renameEnd old new (some c) rest

/-- The text ends in one of `old`, and no word runs into it from the left. -/
def EndsIn (old : Text → Bool) (t : Text) : Prop :=
  ∃ front word, t = front ++ word ∧ old word = true ∧ startsWord front.getLast? = true

theorem getLast?_cons_or (c : Char) (t : Text) (before? : Option Char) :
    (c :: t).getLast?.or before? = t.getLast?.or (some c) := by
  rw [List.getLast?_cons]
  cases t.getLast? <;> rfl

namespace Spots

variable (h : Spots here old width)

include h

theorem length_eq {word word' : Text} (known : old word = true) (known' : old word' = true) :
    word.length = word'.length :=
  Nat.succ_injective ((h.sized word known).trans (h.sized word' known').symm)

theorem renameEnd_append {front word : Text} (known : old word = true) {before? : Option Char}
    (starts : startsWord (front.getLast?.or before?) = true) :
    renameEnd old new before? (front ++ word) = front ++ new := by
  induction front generalizing before? with
  | nil =>
      cases word with
      | nil =>
          rw [h.some] at known
          cases known
      | cons c word =>
          rw [List.getLast?_nil, Option.none_or] at starts
          rw [List.nil_append, renameEnd, known, starts, Bool.and_self, if_pos rfl, List.nil_append]
  | cons c front ih =>
      have longer : old (c :: (front ++ word)) = false := by
        rw [Bool.eq_false_iff]
        intro other
        have long := h.length_eq other known
        rw [List.length_cons, List.length_append] at long
        omega
      rw [getLast?_cons_or] at starts
      rw [List.cons_append, renameEnd, longer, Bool.and_false, if_neg Bool.false_ne_true, ih starts,
        List.cons_append]

end Spots

theorem renameEnd_of_not_endsIn (apart : ¬ EndsIn old t) : renameEnd old new none t = t := by
  suffices ∀ before?, (∀ front word, t = front ++ word → old word = true →
      startsWord (front.getLast?.or before?) = false) → renameEnd old new before? t = t by
    refine this none fun front word spelled known => ?_
    rw [Option.or_none, Bool.eq_false_iff]
    exact fun starts => apart ⟨front, word, spelled, known, starts⟩
  clear apart
  induction t with
  | nil => exact fun _ _ => rfl
  | cons c rest ih =>
      intro before? none
      have miss : ¬ (startsWord before? && old (c :: rest)) = true := by
        rw [Bool.and_eq_true]
        rintro ⟨starts, known⟩
        have inside := none [] (c :: rest) rfl known
        rw [List.getLast?_nil, Option.none_or, starts] at inside
        cases inside
      rw [renameEnd, if_neg miss, ih (some c)]
      intro front word spelled known
      rw [← getLast?_cons_or c front before?]
      exact none (c :: front) word (by rw [spelled, List.cons_append]) known

namespace Spots

/-- An ending is renamed and anything else stays. -/
theorem renameEnd_cases (h : Spots here old width) (new t : Text) :
    (∃ front word, t = front ++ word ∧ old word = true ∧ startsWord front.getLast? = true ∧
        renameEnd old new none t = front ++ new) ∨
      (¬ EndsIn old t ∧ renameEnd old new none t = t) := by
  by_cases ends : EndsIn old t
  · obtain ⟨front, word, rfl, known, starts⟩ := ends
    exact .inl ⟨front, word, rfl, known, starts,
      h.renameEnd_append known (by rwa [Option.or_none])⟩
  · exact .inr ⟨ends, renameEnd_of_not_endsIn ends⟩

section

variable (h : Spots here old width) {c : Char} {part : Text} (before? : Option Char)

include h

/-- A rule looks for one of its names at an equals sign, up to which nothing else stands. -/
theorem atStart_part (signless : '=' ∉ part) (rest : Text) :
    atStart here before? (part ++ '=' :: rest) = (startsWord before? && old part) := by
  rw [atStart]
  refine congrArg _ (Bool.eq_iff_iff.mpr ?_)
  rw [h.spelled]
  constructor
  · rintro ⟨word, tail, spelled, known⟩
    obtain ⟨rfl, -, -⟩ := (append_cons_inj signless (h.signless word known)).mp spelled
    exact known
  · exact fun known => ⟨part, rest, rfl, known⟩

theorem atStart_signless (signless : '=' ∉ part) : atStart here before? part = false := by
  rw [atStart, Bool.and_eq_false_iff]
  refine .inr (Bool.eq_false_iff.mpr fun known => signless ?_)
  obtain ⟨word, tail, rfl, -⟩ := (h.spelled part).mp known
  exact List.mem_append_right word List.mem_cons_self

/-- A rule does to a text what it does to each part of it. -/
theorem replaceFound_part (signless : '=' ∉ part) (rest : Text) :
    replaceFound here width new before? (part ++ '=' :: rest) =
      renameEnd old new before? part ++ '=' :: replaceFound here width new none rest := by
  induction part generalizing before? with
  | nil =>
      have miss : atStart here before? ('=' :: rest) = false := by
        have found := h.atStart_part before? signless rest
        rwa [h.some, Bool.and_false, List.nil_append] at found
      rw [List.nil_append, replaceFound_miss miss, replaceFound_restart isWord_equals]
      rfl
  | cons c part ih =>
      have found := h.atStart_part before? signless rest
      rw [List.cons_append] at found ⊢
      rw [renameEnd]
      split
      · rename_i hit
        have passed : width - 1 = part.length + 1 := by
          rw [← h.sized _ ((Bool.and_eq_true _ _).mp hit).2]
          rfl
        rw [replaceFound, replaceHits, if_pos (found.trans hit), passed, replaceHits_skip,
          List.append_assoc]
        exact congrArg (new ++ '=' :: ·) (replaceFound_restart isWord_equals rest)
      · rename_i miss
        rw [replaceFound_miss (found.trans (Bool.not_eq_true _ ▸ miss)),
          ih _ fun sign => signless (List.mem_cons_of_mem c sign)]
        rfl

theorem replaceFound_last (signless : '=' ∉ part) :
    replaceFound here width new before? part = part := by
  induction part generalizing before? with
  | nil => rfl
  | cons c part ih =>
      rw [replaceFound_miss (h.atStart_signless before? signless),
        ih _ fun sign => signless (List.mem_cons_of_mem c sign)]

end

/-- A rule renames the ends of the parts. -/
theorem relabels (h : Spots here old width) (signless : '=' ∉ new) :
    Relabels (renameEnd old new none) (replaceFound here width new none) where
  signless part absent := by
    rcases h.renameEnd_cases new part with ⟨front, word, rfl, -, -, same⟩ | ⟨-, same⟩
    · rw [same, List.mem_append, not_or]
      exact ⟨fun sign => absent (List.mem_append_left word sign), signless⟩
    · rwa [same]
  last part absent := h.replaceFound_last none absent
  step part rest absent := h.replaceFound_part none absent rest

end Spots

end

end Recast.Markup
