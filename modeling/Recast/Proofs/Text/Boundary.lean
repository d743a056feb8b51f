import Recast.Proofs.Text.Blank
import Recast.Text.Boundary

/-! # Replacing words

A replaced word lies between boundaries, so a character that is in no word stays
where it is and parts the text: what stands before and after it is replaced on its
own.
-/

namespace Recast.Text

section

variable {hit : Option Char → Text → Bool} {width : Nat} {replacement : Text}

theorem mem_replaceHits {skip : Nat} {before? : Option Char} {t : Text} {x : Char}
    (member : x ∈ replaceHits hit width replacement skip before? t) :
    x ∈ t ∨ x ∈ replacement := by
  induction t generalizing skip before? with
  | nil => simp [replaceHits] at member
  | cons c rest ih =>
      cases skip with
      | succ skip => exact (ih member).imp_left (List.mem_cons_of_mem _)
      | zero =>
          simp only [replaceHits] at member
          split at member
          · rcases List.mem_append.mp member with new | later
            · exact .inr new
            · exact (ih later).imp_left (List.mem_cons_of_mem _)
          · rcases List.mem_cons.mp member with rfl | later
            · exact .inl List.mem_cons_self
            · exact (ih later).imp_left (List.mem_cons_of_mem _)

/-- What is passed over leaves nothing. -/
theorem replaceHits_of_length_le {skip : Nat} {before? : Option Char} {t : Text}
    (passed : t.length ≤ skip) : replaceHits hit width replacement skip before? t = [] := by
  induction t generalizing skip before? with
  | nil => simp [replaceHits]
  | cons c rest ih =>
      cases skip with
      | zero => simp at passed
      | succ skip => exact ih (by simpa using passed)

end

/-- Does `word` stand alone at this place? -/
def standsAlone (word : Text) (before? : Option Char) (t : Text) : Bool :=
  startsWord before? && word.isPrefixOf t && endsWord (t.drop word.length)

theorem standsAlone_iff {word : Text} {before? : Option Char} {t : Text} :
    standsAlone word before? t = true ↔
      startsWord before? = true ∧ ∃ rest, t = word ++ rest ∧ endsWord rest = true := by
  simp only [standsAlone, Bool.and_eq_true, List.isPrefixOf_iff_prefix, and_assoc]
  refine and_congr_right fun _ => ⟨?_, ?_⟩
  · rintro ⟨⟨rest, rfl⟩, ends⟩
    exact ⟨rest, rfl, by simpa using ends⟩
  · rintro ⟨rest, rfl, ends⟩
    exact ⟨List.prefix_append word rest, by simpa using ends⟩

theorem replaceWord_eq (word replacement t : Text) :
    replaceWord word replacement t =
      replaceHits (standsAlone word) word.length replacement 0 none t := rfl

theorem mem_replaceWord {word replacement t : Text} {x : Char}
    (member : x ∈ replaceWord word replacement t) : x ∈ t ∨ x ∈ replacement :=
  mem_replaceHits member

theorem not_mem_replaceWord {word replacement t : Text} {x : Char} (old : x ∉ t)
    (new : x ∉ replacement) : x ∉ replaceWord word replacement t :=
  fun member => (mem_replaceWord member).elim old new

variable {word replacement : Text} {c : Char}

private theorem standsAlone_append_cons (some : word ≠ []) (outside : c ∉ word)
    (solid : isWord c = false) (before? : Option Char) (s t : Text) :
    standsAlone word before? (s ++ c :: t) = standsAlone word before? s := by
  rw [Bool.eq_iff_iff, standsAlone_iff, standsAlone_iff]
  refine and_congr_right fun _ => ⟨?_, ?_⟩
  · rintro ⟨rest, spelled, ends⟩
    rcases List.append_eq_append_iff.mp spelled with ⟨more, rfl, tail⟩ | ⟨more, rfl, rfl⟩
    · cases more with
      | nil => exact ⟨[], by simp, rfl⟩
      | cons d more =>
          obtain ⟨rfl, -⟩ := List.cons.inj tail
          exact absurd (List.mem_append_right s List.mem_cons_self) outside
    · refine ⟨more, rfl, ?_⟩
      cases more with
      | nil => rfl
      | cons d more => simpa [endsWord] using ends
  · rintro ⟨rest, rfl, ends⟩
    refine ⟨rest ++ c :: t, List.append_assoc .., ?_⟩
    cases rest with
    | nil => simp [endsWord, solid]
    | cons e rest => simpa [endsWord] using ends

private theorem not_standsAlone_nil (some : word ≠ []) (before? : Option Char) :
    standsAlone word before? [] = false := by
  cases word with
  | nil => exact absurd rfl some
  | cons w word => simp [standsAlone]

/-- A character that is in no word parts the text. -/
theorem replaceWord_append_cons (some : word ≠ []) (outside : c ∉ word) (solid : isWord c = false)
    (s t : Text) :
    replaceWord word replacement (s ++ c :: t) =
      replaceWord word replacement s ++ c :: replaceWord word replacement t := by
  -- what follows the character is read as if nothing stood before it
  have after : replaceHits (standsAlone word) word.length replacement 0 (Option.some c) t =
      replaceHits (standsAlone word) word.length replacement 0 none t := by
    cases t with
    | nil => rfl
    | cons d t => simp [replaceHits, standsAlone, startsWord, solid]
  simp only [replaceWord_eq]
  suffices ∀ (skip : Nat) (before? : Option Char), skip ≤ s.length →
      replaceHits (standsAlone word) word.length replacement skip before? (s ++ c :: t) =
        replaceHits (standsAlone word) word.length replacement skip before? s ++
          c :: replaceHits (standsAlone word) word.length replacement 0 none t from
    this 0 none (Nat.zero_le _)
  induction s with
  | nil =>
      intro skip before? short
      obtain rfl : skip = 0 := by simpa using short
      have miss := standsAlone_append_cons some outside solid before? [] t
      rw [not_standsAlone_nil some] at miss
      simp only [List.nil_append] at miss ⊢
      simp [replaceHits, miss, after]
  | cons d rest ih =>
      intro skip before? short
      cases skip with
      | succ skip =>
          simp only [List.length_cons, Nat.add_le_add_iff_right] at short
          exact ih skip (Option.some d) short
      | zero =>
          have same := standsAlone_append_cons some outside solid before? (d :: rest) t
          simp only [List.cons_append] at same
          simp only [List.cons_append, replaceHits, same]
          split
          · rename_i hit
            have fits : word.length ≤ rest.length + 1 := by
              simp only [standsAlone, Bool.and_eq_true, List.isPrefixOf_iff_prefix] at hit
              exact hit.1.2.length_le
            rw [ih _ _ (by omega), List.append_assoc]
          · rw [ih _ _ (Nat.zero_le _), List.cons_append]

/-- A last character that is in no word stays. -/
theorem replaceWord_concat (some : word ≠ []) (outside : c ∉ word) (solid : isWord c = false)
    (t : Text) :
    replaceWord word replacement (t ++ [c]) = replaceWord word replacement t ++ [c] :=
  replaceWord_append_cons some outside solid t []

theorem replaceWord_append_blank (some : word ≠ []) (letters : ∀ d ∈ word, isWord d)
    {blanks : Text} (blank : ∀ d ∈ blanks, isBlank d) (t : Text) :
    replaceWord word replacement (t ++ blanks) = replaceWord word replacement t ++ blanks := by
  induction blanks using List.reverseRecOn with
  | nil => simp
  | append_singleton blanks d ih =>
      have solid : isWord d = false := isWord_of_isBlank (blank d (by simp))
      have outside : d ∉ word := fun member => by simp [letters d member] at solid
      rw [← List.append_assoc, replaceWord_concat some outside solid,
        ih fun e member => blank e (by simp [member]), List.append_assoc]

/-- A first character that is in no word stays. -/
theorem replaceWord_cons (some : word ≠ []) (outside : c ∉ word) (solid : isWord c = false)
    (t : Text) : replaceWord word replacement (c :: t) = c :: replaceWord word replacement t :=
  replaceWord_append_cons some outside solid [] t

/-- The first character stays when the word starts with another one. -/
theorem head?_replaceWord {w : Char} (other : w ≠ c) (t : Text) :
    (replaceWord (w :: word) replacement (c :: t)).head? = some c := by
  have miss : standsAlone (w :: word) none (c :: t) = false := by simp [standsAlone, other]
  simp [replaceWord_eq, replaceHits, miss]

/-- Each replacement that is not empty ends as it says, so the whole ends as before or as
    the replacement does. -/
theorem getLast?_replaceWord {r : Char} (last : replacement.getLast? = some r) (t : Text) :
    (replaceWord word replacement (t ++ [c])).getLast? = some c ∨
      (replaceWord word replacement (t ++ [c])).getLast? = some r := by
  simp only [replaceWord_eq]
  suffices ∀ (skip : Nat) (before? : Option Char), skip ≤ t.length →
      (replaceHits (standsAlone word) word.length replacement skip before?
          (t ++ [c])).getLast? = some c ∨
        (replaceHits (standsAlone word) word.length replacement skip before?
          (t ++ [c])).getLast? = some r from
    this 0 none (Nat.zero_le _)
  induction t with
  | nil =>
      intro skip before? short
      obtain rfl : skip = 0 := by simpa using short
      simp only [List.nil_append, replaceHits]
      split
      · exact .inr (by simpa using last)
      · exact .inl rfl
  | cons d rest ih =>
      intro skip before? short
      cases skip with
      | succ skip =>
          simp only [List.length_cons, Nat.add_le_add_iff_right] at short
          exact ih skip (some d) short
      | zero =>
          simp only [List.cons_append, replaceHits]
          split
          · rcases Nat.lt_or_ge (word.length - 1) (rest ++ [c]).length with inside | whole
            · have short : word.length - 1 ≤ rest.length := by
                rw [List.length_append, List.length_singleton] at inside
                omega
              rcases ih _ (some d) short with same | same <;>
                simp [List.getLast?_append, same]
            · -- the word is the whole text, of which nothing is left
              exact .inr (by rw [replaceHits_of_length_le whole, List.append_nil, last])
          · rcases ih 0 (some d) (Nat.zero_le _) with same | same <;>
              simp [List.getLast?_cons, same]

/-! ## Runs of word characters -/

/-- Inside a word no other word stands alone. -/
private theorem replaceHits_inside {run : Text} (letters : ∀ d ∈ run, isWord d) {b : Char}
    (letter : isWord b = true) :
    replaceHits (standsAlone word) word.length replacement 0 (some b) run = run := by
  induction run generalizing b with
  | nil => rfl
  | cons d run ih =>
      obtain ⟨here, later⟩ := List.forall_mem_cons.mp letters
      have miss : standsAlone word (some b) (d :: run) = false := by
        simp [standsAlone, startsWord, letter]
      simp [replaceHits, miss, ih later here]

theorem replaceWord_run (some : word ≠ []) {run : Text} (letters : ∀ d ∈ run, isWord d) :
    replaceWord word replacement run = if run = word then replacement else run := by
  cases run with
  | nil => simp [replaceWord_eq, replaceHits, Ne.symm some]
  | cons d run =>
      obtain ⟨here, later⟩ := List.forall_mem_cons.mp letters
      have alone : standsAlone word none (d :: run) = true ↔ d :: run = word := by
        rw [standsAlone_iff]
        constructor
        · rintro ⟨-, rest, spelled, ends⟩
          cases rest with
          | nil => rw [spelled, List.append_nil]
          | cons e rest =>
              have letter : isWord e = true := letters e (by simp [spelled])
              simp [endsWord, letter] at ends
        · intro same
          exact ⟨rfl, [], by rw [same, List.append_nil], rfl⟩
      rw [replaceWord_eq, replaceHits]
      by_cases same : d :: run = word
      · have passed : run.length ≤ word.length - 1 := by simp [← same]
        rw [if_pos (alone.mpr same), if_pos same, replaceHits_of_length_le passed, List.append_nil]
      · rw [if_neg (mt alone.mp same), if_neg same, replaceHits_inside later here]

/-- A text is a run of word characters, or one with another character and a text behind it. -/
@[elab_as_elim]
theorem runInduction {motive : Text → Prop} (t : Text)
    (run : ∀ run, (∀ d ∈ run, isWord d) → motive run)
    (more : ∀ run c rest, (∀ d ∈ run, isWord d) → isWord c = false → motive rest →
      motive (run ++ c :: rest)) : motive t := by
  induction long : t.length using Nat.strong_induction_on generalizing t with
  | _ n ih =>
      have letters : ∀ d ∈ t.takeWhile isWord, isWord d := fun d member =>
        List.mem_takeWhile_imp member
      have whole : t.takeWhile isWord ++ t.dropWhile isWord = t := List.takeWhile_append_dropWhile
      cases tail : t.dropWhile isWord with
      | nil =>
          rw [tail, List.append_nil] at whole
          rw [← whole]
          exact run _ letters
      | cons c rest =>
          rw [tail] at whole
          have solid : isWord c = false := by
            have first := List.head_dropWhile_not isWord (show t.dropWhile isWord ≠ [] by simp [tail])
            simpa [tail] using first
          have shorter : rest.length < n := by
            rw [← long, ← whole, List.length_append, List.length_cons]
            omega
          rw [← whole]
          exact more _ c rest letters solid (ih _ shorter rest rfl)

/-- `word` stands alone somewhere in the text. -/
def Occurs (word t : Text) : Prop :=
  ∃ start rest, t = start ++ word ++ rest ∧ startsWord start.getLast? = true ∧
    endsWord rest = true

theorem occurs_self (word : Text) : Occurs word word :=
  ⟨[], [], by simp, rfl, rfl⟩

theorem Occurs.infix {t : Text} (h : Occurs word t) : word <:+: t := by
  obtain ⟨start, rest, rfl, -⟩ := h
  exact ⟨start, rest, rfl⟩

/-- A word of a piece is a word of the whole when the piece is parted from the rest. -/
theorem Occurs.append {s : Text} (h : Occurs word s) (before after : Text)
    (starts : startsWord before.getLast? = true) (ends : endsWord after = true) :
    Occurs word (before ++ s ++ after) := by
  obtain ⟨start, rest, rfl, first, last⟩ := h
  refine ⟨before ++ start, rest ++ after, by simp, ?_, ?_⟩
  · cases start using List.reverseRecOn with
    | nil => simpa using starts
    | append_singleton start c => simpa [← List.append_assoc] using first
  · cases rest with
    | nil => exact ends
    | cons c rest => exact last

/-- A word of one line of a text is a word of the text. -/
theorem Occurs.join {piece : Text} {pieces : List Text} (member : piece ∈ pieces)
    (occurs : Occurs word piece) : Occurs word (join ['\n'] pieces) := by
  induction pieces with
  | nil => simp at member
  | cons first others ih =>
      cases others with
      | nil =>
          obtain rfl := List.mem_singleton.mp member
          exact occurs
      | cons next others =>
          have whole : Text.join ['\n'] (first :: next :: others) =
              first ++ '\n' :: Text.join ['\n'] (next :: others) := by simp [Text.join]
          have starts : startsWord (first ++ ['\n']).getLast? = true := by
            rw [List.getLast?_concat]
            decide
          rw [whole]
          rcases List.mem_cons.mp member with rfl | later
          · exact occurs.append [] _ rfl rfl
          · simpa using (ih later).append _ [] starts rfl

end Recast.Text
