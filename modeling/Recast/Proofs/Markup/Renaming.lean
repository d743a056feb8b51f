import Recast.Markup.Attribute
import Recast.Proofs.Text.Boundary
import Recast.Proofs.Text.Caseless

/-! # Renaming before equals signs

An attribute is renamed wherever a word stands before an equals sign, whatever is in front of the
word. So a text is renamed run by run: a run of word characters changes only if an equals sign
follows, and nothing else changes.
-/

namespace Recast.Markup

open Text

/-! ## Runs -/

/-- Each run of word characters with an equals sign behind it becomes its image under `f`, and
everything else stays. -/
structure Renames (f r : Text → Text) : Prop where
  letters : ∀ run, (∀ d ∈ run, isWord d) → ∀ d ∈ f run, isWord d
  last : ∀ run, (∀ d ∈ run, isWord d) → r run = run
  step : ∀ run c rest, (∀ d ∈ run, isWord d) → isWord c = false →
    r (run ++ c :: rest) = (if c = '=' then f run else run) ++ c :: r rest

section

variable {f g r s : Text → Text} {run run' t : Text} {c c' : Char} {rest rest' : Text}

theorem isWord_equals : isWord '=' = false := by decide

theorem not_mem_run (letters : ∀ d ∈ run, isWord d) (solid : isWord c = false) : c ∉ run := by
  intro member
  rw [letters c member] at solid
  cases solid

/-- Where a run ends is seen from the characters. -/
theorem run_cons_inj (letters : ∀ d ∈ run, isWord d) (letters' : ∀ d ∈ run', isWord d)
    (solid : isWord c = false) (solid' : isWord c' = false) :
    run ++ c :: rest = run' ++ c' :: rest' ↔ run = run' ∧ c = c' ∧ rest = rest' :=
  append_cons_inj (not_mem_run letters solid') (not_mem_run letters' solid)

/-- Somewhere in the text the run stands alone on the left of an equals sign. -/
def Assigned (run t : Text) : Prop :=
  ∃ before rest, t = before ++ run ++ '=' :: rest ∧ startsWord before.getLast? = true

theorem not_assigned_run (letters : ∀ d ∈ t, isWord d) : ¬ Assigned run t := by
  rintro ⟨before, rest, rfl, -⟩
  exact absurd (by simp) (not_mem_run letters isWord_equals)

theorem startsWord_append_cons (solid : isWord c = false) (before more : Text) :
    startsWord (before ++ c :: more).getLast? = startsWord more.getLast? := by
  cases more using List.reverseRecOn with
  | nil => simp [startsWord, solid]
  | append_singleton more d =>
      have whole : before ++ c :: (more ++ [d]) = (before ++ c :: more) ++ [d] := by simp
      rw [whole, List.getLast?_concat, List.getLast?_concat]

theorem eq_nil_of_startsWord (letters : ∀ d ∈ t, isWord d)
    (starts : startsWord t.getLast? = true) : t = [] := by
  cases t using List.reverseRecOn with
  | nil => rfl
  | append_singleton t d => simp [startsWord, letters d] at starts

/-- A run is assigned in a text if it is the first one, or in what comes after that. -/
theorem assigned_cons_iff (letters : ∀ d ∈ run, isWord d) (letters' : ∀ d ∈ run', isWord d)
    (solid : isWord c = false) :
    Assigned run' (run ++ c :: rest) ↔ (run' = run ∧ c = '=') ∨ Assigned run' rest := by
  constructor
  · rintro ⟨before, tail, split, starts⟩
    rw [List.append_assoc] at split
    -- The place is behind the first run, or it is that run: inside of it no word starts.
    rcases List.append_eq_append_iff.mp split with ⟨more, rfl, after⟩ | ⟨more, rfl, after⟩
    · cases more with
      | nil =>
          rw [List.append_nil] at starts
          obtain rfl := eq_nil_of_startsWord letters starts
          have none : ∀ d ∈ ([] : Text), isWord d := nofun
          obtain ⟨rfl, same, -⟩ := (run_cons_inj none letters' solid isWord_equals).mp after
          exact .inl ⟨rfl, same⟩
      | cons d more =>
          obtain ⟨rfl, rfl⟩ := List.cons.inj after
          rw [startsWord_append_cons solid] at starts
          exact .inr ⟨more, tail, (List.append_assoc ..).symm, starts⟩
    · have whole := List.forall_mem_append.mp letters
      obtain rfl := eq_nil_of_startsWord whole.1 starts
      obtain ⟨rfl, same, -⟩ := (run_cons_inj letters' whole.2 isWord_equals solid).mp after
      exact .inl ⟨rfl, same.symm⟩
  · rintro (⟨rfl, rfl⟩ | ⟨before, tail, rfl, starts⟩)
    · exact ⟨[], rest, rfl, rfl⟩
    · refine ⟨run ++ c :: before, tail, by simp, ?_⟩
      rwa [startsWord_append_cons solid]

namespace Renames

theorem congr (h : Renames f r) (same : ∀ run, f run = g run) : Renames g r := by
  obtain rfl : f = g := funext same
  exact h

/-- In front of a sign a run becomes a run. -/
theorem letters_before (h : Renames f r) (letters : ∀ d ∈ run, isWord d) (c : Char) :
    ∀ d ∈ (if c = '=' then f run else run), isWord d := by
  split
  · exact h.letters run letters
  · exact letters

theorem comp (h : Renames f r) (h' : Renames g s) :
    Renames (fun run => g (f run)) (fun t => s (r t)) where
  letters run all := h'.letters _ (h.letters run all)
  last run all := by rw [h.last run all, h'.last run all]
  step run c rest all solid := by
    rw [h.step run c rest all solid, h'.step _ c _ (h.letters_before all c) solid]
    split <;> rfl

/-- A sign that is no equals sign parts the text. -/
theorem parts (h : Renames f r) (solid : isWord c = false) (other : c ≠ '=') (s t : Text) :
    r (s ++ c :: t) = r s ++ c :: r t := by
  induction s using runInduction with
  | run run letters => rw [h.step run c t letters solid, if_neg other, h.last run letters]
  | more run d rest letters solid' ih =>
      rw [List.append_assoc, List.cons_append, h.step run d _ letters solid', ih,
        h.step run d rest letters solid', List.append_assoc, List.cons_append]

theorem not_mem (h : Renames f r) (solid : isWord c = false) (missing : c ∉ t) : c ∉ r t := by
  induction t using runInduction with
  | run run letters => rwa [h.last run letters]
  | more run d rest letters solid' ih =>
      simp only [List.mem_append, List.mem_cons, not_or] at missing
      rw [h.step run d rest letters solid', List.mem_append, List.mem_cons, not_or, not_or]
      exact ⟨not_mem_run (h.letters_before letters d) solid, missing.2.1, ih missing.2.2⟩

/-- A text stays exactly when every run that changes is nowhere assigned. -/
theorem eq_self_iff (h : Renames f r) : r t = t ↔
    ∀ run, (∀ d ∈ run, isWord d) → Assigned run t → f run = run := by
  induction t using runInduction with
  | run run letters => simp [h.last run letters, not_assigned_run letters]
  | more run c rest letters solid ih =>
      rw [h.step run c rest letters solid,
        run_cons_inj (h.letters_before letters c) letters solid solid, ih]
      constructor
      · rintro ⟨first, -, others⟩ run' all assigned
        rcases (assigned_cons_iff letters all solid).mp assigned with ⟨rfl, rfl⟩ | later
        · simpa using first
        · exact others run' all later
      · intro stays
        refine ⟨?_, rfl, fun run' all later =>
          stays run' all ((assigned_cons_iff letters all solid).mpr (.inr later))⟩
        split
        · rename_i equals
          have here : Assigned run (run ++ c :: rest) :=
            (assigned_cons_iff letters letters solid).mpr (.inl ⟨rfl, equals⟩)
          exact stays run letters here
        · rfl

theorem eq_self_of_not_mem (h : Renames f r) (missing : '=' ∉ t) : r t = t := by
  refine h.eq_self_iff.mpr ?_
  rintro run - ⟨before, rest, rfl, -⟩
  simp at missing

end Renames

end

/-! ## Rules -/

section

variable {here old : Text → Bool} {new : Text} {width : Nat} {c : Char}

/-- `here` is the test for a word of `old`, all of one width, with an equals sign behind it. -/
structure Finds (here old : Text → Bool) (width : Nat) : Prop where
  spelled : ∀ t, here t = true ↔ ∃ word rest, t = word ++ '=' :: rest ∧ old word = true
  sized : ∀ word, old word = true → word.length + 1 = width
  some : old [] = false
  letters : ∀ word, old word = true → ∀ d ∈ word, isWord d

namespace Finds

theorem not_run (h : Finds here old width) {run : Text} (letters : ∀ d ∈ run, isWord d) :
    here run = false := by
  rw [Bool.eq_false_iff, ne_eq, h.spelled]
  rintro ⟨word, rest, rfl, -⟩
  exact absurd (by simp) (not_mem_run letters isWord_equals)

theorem run_cons (h : Finds here old width) {run rest : Text} (letters : ∀ d ∈ run, isWord d)
    (solid : isWord c = false) :
    here (run ++ c :: rest) = true ↔ c = '=' ∧ old run = true := by
  rw [h.spelled]
  constructor
  · rintro ⟨word, tail, same, known⟩
    obtain ⟨rfl, equals, -⟩ :=
      (run_cons_inj letters (h.letters word known) solid isWord_equals).mp same
    exact ⟨equals, known⟩
  · rintro ⟨rfl, known⟩
    exact ⟨run, rest, rfl, known⟩

end Finds

/-- Is the place found, with no word running into it from the left? -/
def atStart (here : Text → Bool) (before? : Option Char) (t : Text) : Bool :=
  startsWord before? && here t

/-- The rule that writes `new` for what is found. -/
def replaceFound (here : Text → Bool) (width : Nat) (new : Text) (before? : Option Char)
    (t : Text) : Text :=
  replaceHits (atStart here) width (new ++ ['=']) 0 before? t

theorem replaceFound_miss {before? : Option Char} {rest : Text}
    (miss : atStart here before? (c :: rest) = false) :
    replaceFound here width new before? (c :: rest) =
      c :: replaceFound here width new (some c) rest := by
  simp [replaceFound, replaceHits, miss]

theorem replaceFound_restart (solid : isWord c = false) (t : Text) :
    replaceFound here width new (some c) t = replaceFound here width new none t := by
  cases t with
  | nil => rfl
  | cons d t => simp [replaceFound, replaceHits, atStart, startsWord, solid]

theorem not_atStart {b : Char} (letter : isWord b = true) (t : Text) :
    atStart here (some b) t = false := by
  simp [atStart, startsWord, letter]

/-- Inside of a word nothing is found. -/
theorem replaceFound_inside {run : Text} {b : Char} (letter : isWord b = true)
    (letters : ∀ d ∈ run, isWord d) (solid : isWord c = false) (rest : Text) :
    replaceFound here width new (some b) (run ++ c :: rest) =
      run ++ c :: replaceFound here width new none rest := by
  induction run generalizing b with
  | nil =>
      rw [List.nil_append, replaceFound_miss (not_atStart letter _), replaceFound_restart solid]
      rfl
  | cons d run ih =>
      obtain ⟨first, others⟩ := List.forall_mem_cons.mp letters
      rw [List.cons_append, replaceFound_miss (not_atStart letter _), ih first others]
      rfl

theorem replaceHits_skip {hit : Option Char → Text → Bool} {replacement : Text}
    (before? : Option Char) (passed rest : Text) :
    replaceHits hit width replacement (passed.length + 1) before? (passed ++ c :: rest) =
      replaceHits hit width replacement 0 (some c) rest := by
  induction passed generalizing before? with
  | nil => rfl
  | cons d passed ih => exact ih (some d)

namespace Finds

theorem replaceFound_hit (h : Finds here old width) {run : Text} (known : old run = true)
    (rest : Text) :
    replaceFound here width new none (run ++ '=' :: rest) =
      new ++ '=' :: replaceFound here width new none rest := by
  have hit : atStart here none (run ++ '=' :: rest) = true :=
    (h.run_cons (h.letters run known) isWord_equals).mpr ⟨rfl, known⟩
  cases run with
  | nil =>
      rw [h.some] at known
      cases known
  | cons d run =>
      have passed : width - 1 = run.length + 1 := by
        rw [← h.sized _ known]
        rfl
      rw [List.cons_append] at hit ⊢
      rw [replaceFound, replaceHits, if_pos hit, passed, replaceHits_skip, List.append_assoc]
      exact congrArg (new ++ '=' :: ·) (replaceFound_restart isWord_equals rest)

theorem replaceFound_other (h : Finds here old width) {run : Text} (letters : ∀ d ∈ run, isWord d)
    (solid : isWord c = false) (other : ¬ (c = '=' ∧ old run = true)) (rest : Text) :
    replaceFound here width new none (run ++ c :: rest) =
      run ++ c :: replaceFound here width new none rest := by
  have miss : atStart here none (run ++ c :: rest) = false :=
    Bool.eq_false_iff.mpr (mt (h.run_cons letters solid).mp other)
  cases run with
  | nil =>
      rw [List.nil_append] at miss ⊢
      rw [replaceFound_miss miss, replaceFound_restart solid]
      rfl
  | cons d run =>
      obtain ⟨first, others⟩ := List.forall_mem_cons.mp letters
      rw [List.cons_append] at miss ⊢
      rw [replaceFound_miss miss, replaceFound_inside first others solid]
      rfl

theorem replaceFound_run (h : Finds here old width) {run : Text} (letters : ∀ d ∈ run, isWord d)
    (before? : Option Char) : replaceFound here width new before? run = run := by
  induction run generalizing before? with
  | nil => rfl
  | cons d run ih =>
      have miss : atStart here before? (d :: run) = false := by
        rw [atStart, h.not_run letters, Bool.and_false]
      rw [replaceFound_miss miss, ih (List.forall_mem_cons.mp letters).2]

/-- A rule renames the words that it finds. -/
theorem renames (h : Finds here old width) (letters : ∀ d ∈ new, isWord d) :
    Renames (fun run => if old run then new else run) (replaceFound here width new none) where
  letters run all := by
    split
    · exact letters
    · exact all
  last run all := h.replaceFound_run all none
  step run c rest all solid := by
    by_cases known : c = '=' ∧ old run = true
    · obtain ⟨rfl, known⟩ := known
      rw [if_pos rfl, if_pos known, h.replaceFound_hit known]
    · rw [h.replaceFound_other all solid known]
      by_cases equals : c = '='
      · rw [if_pos equals, if_neg fun is => known ⟨equals, is⟩]
      · rw [if_neg equals]

end Finds

/-! ## Words in one case or in any -/

/-- `here` is the test for a word of `old` with an equals sign behind it, where the words all have
one width and no such sign of their own. -/
structure Spots (here old : Text → Bool) (width : Nat) : Prop where
  spelled : ∀ t, here t = true ↔ ∃ word rest, t = word ++ '=' :: rest ∧ old word = true
  sized : ∀ word, old word = true → word.length + 1 = width
  some : old [] = false
  signless : ∀ word, old word = true → '=' ∉ word

theorem spots_exact {word : Text} (some : word ≠ []) (signless : '=' ∉ word) :
    Spots (word ++ ['=']).isPrefixOf (fun run => run = word) (word ++ ['=']).length where
  spelled t := by
    simp only [List.isPrefixOf_iff_prefix, decide_eq_true_eq]
    constructor
    · rintro ⟨rest, rfl⟩
      exact ⟨word, rest, by simp, rfl⟩
    · rintro ⟨_, rest, rfl, rfl⟩
      exact ⟨rest, by simp⟩
  sized run same := by rw [of_decide_eq_true same, List.length_append, List.length_singleton]
  some := decide_eq_false some.symm
  signless run same := by rwa [of_decide_eq_true same]

theorem spots_caseless {word : Text} (some : word ≠ []) (signless : '=' ∉ word) :
    Spots (fun t => (afterCaseless? (word ++ ['=']) t).isSome) (fun run => run.map fold = word)
      (word ++ ['=']).length where
  spelled t := by
    simp only [Option.isSome_iff_exists, afterCaseless?_eq_some, decide_eq_true_eq]
    constructor
    · rintro ⟨rest, start, rfl, folded⟩
      obtain ⟨run, last, rfl, same, equals⟩ := List.map_eq_append_iff.mp folded
      obtain ⟨c, rfl, sign⟩ := List.map_eq_singleton_iff.mp equals
      obtain rfl := fold_eq_equals.mp sign
      exact ⟨run, rest, by simp, same⟩
    · rintro ⟨run, rest, rfl, rfl⟩
      exact ⟨rest, run ++ ['='], by simp, by simp [fold_eq_equals.mpr rfl]⟩
  sized run same := by
    rw [← of_decide_eq_true same, List.length_append, List.length_map, List.length_singleton]
  some := decide_eq_false some.symm
  signless run same := by
    intro sign
    refine signless ?_
    rw [← of_decide_eq_true same, ← fold_eq_equals.mpr rfl]
    exact List.mem_map_of_mem sign

theorem finds_exact {word : Text} (some : word ≠ []) (letters : ∀ d ∈ word, isWord d) :
    Finds (word ++ ['=']).isPrefixOf (fun run => run = word) (word ++ ['=']).length where
  spelled := (spots_exact some (not_mem_run letters isWord_equals)).spelled
  sized := (spots_exact some (not_mem_run letters isWord_equals)).sized
  some := decide_eq_false some.symm
  letters run same := by rwa [of_decide_eq_true same]

theorem finds_caseless {word : Text} (some : word ≠ []) (letters : ∀ d ∈ word, isWord d) :
    Finds (fun t => (afterCaseless? (word ++ ['=']) t).isSome) (fun run => run.map fold = word)
      (word ++ ['=']).length where
  spelled := (spots_caseless some (not_mem_run letters isWord_equals)).spelled
  sized := (spots_caseless some (not_mem_run letters isWord_equals)).sized
  some := decide_eq_false some.symm
  letters run same := by
    intro d member
    refine isWord_of_fold (letters _ ?_)
    rw [← of_decide_eq_true same]
    exact List.mem_map_of_mem member

theorem renames_rename {name new : String} (some : name.toList ≠ [])
    (letters : ∀ d ∈ name.toList, isWord d) (letters' : ∀ d ∈ new.toList, isWord d) :
    Renames (fun run => if run = name.toList then new.toList else run) (rename name new) := by
  have found := (finds_exact some letters).renames letters'
  simp only [decide_eq_true_eq] at found
  exact found

theorem renames_renameCaseless {name new : String} (some : name.toList ≠ [])
    (letters : ∀ d ∈ name.toList, isWord d) (letters' : ∀ d ∈ new.toList, isWord d) :
    Renames (fun run => if run.map fold = name.toList then new.toList else run)
      (renameCaseless name new) := by
  have found := (finds_caseless some letters).renames letters'
  simp only [decide_eq_true_eq] at found
  exact found

end

end Recast.Markup
