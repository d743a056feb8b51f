import Recast.Detect
import Recast.Proofs.Codec.Wrapping
import Recast.Proofs.Text.Caseless
import Recast.Proofs.Text.Mark

/-! # Base64 forms among other formats

Every check that is tried before the one for Base64 looks for a sign that no Base64 form has, also
when it is wrapped in lines. So a wrapped form is taken for Base64 as soon as it has twenty
letters, and this is decided by the octets that it stands for.
-/

namespace Recast.Detect

open Text

/-! ## Signs that a check needs -/

/-- Each check before the last one needs a sign of these. -/
def signs : Text := ".\x7b[<(>#*: "

/-- The test holds only of texts that have one of the signs. -/
def NeedsSign (p : Text → Bool) : Prop := ∀ t, p t = true → ∃ c ∈ t, c ∈ signs

section

variable {p q : Text → Bool} {t : Text}

theorem sign_cons {c : Char} (some : ∃ d ∈ t, d ∈ signs) : ∃ d ∈ c :: t, d ∈ signs :=
  some.imp fun _ known => ⟨List.mem_cons_of_mem c known.1, known.2⟩

theorem needsSign_head {c : Char} (sign : c ∈ signs) : NeedsSign fun t => t.head? == some c := by
  intro t first
  exact ⟨c, List.mem_of_head? (by simpa using first), sign⟩

theorem needsSign_prefix {word : Text} (sign : ∃ c ∈ word, c ∈ signs) :
    NeedsSign word.isPrefixOf := by
  intro t start
  obtain ⟨c, inside, sign⟩ := sign
  exact ⟨c, (List.isPrefixOf_iff_prefix.mp start).mem inside, sign⟩

theorem needsSign_after (word : Text) (sign : ∃ c ∈ word, c ∈ signs) :
    NeedsSign fun t => (after? word t).isSome := by
  intro t found
  obtain ⟨rest, found⟩ := Option.isSome_iff_exists.mp found
  obtain ⟨c, inside, sign⟩ := sign
  exact ⟨c, after?_eq_some.mp found ▸ List.mem_append_left rest inside, sign⟩

theorem needsSign_hasPart {word : Text} (sign : ∃ c ∈ word, c ∈ signs) :
    NeedsSign (hasPart word) := by
  intro t part
  obtain ⟨c, inside, sign⟩ := sign
  exact ⟨c, ((hasPart_iff (List.ne_nil_of_mem inside)).mp part).mem inside, sign⟩

/-- The signs are no letters, so no other character folds to one. -/
theorem needsSign_caseless (start : Text) (sign : ∃ c ∈ start, c ∈ signs) :
    NeedsSign fun t => (afterCaseless? start t).isSome := by
  have solid : ∀ c ∈ signs, isWord c = false := by decide
  intro t found
  obtain ⟨rest, found⟩ := Option.isSome_iff_exists.mp found
  obtain ⟨word, rfl, rfl⟩ := afterCaseless?_eq_some.mp found
  obtain ⟨_, inside, sign⟩ := sign
  obtain ⟨c, letter, rfl⟩ := List.mem_map.mp inside
  have same := (fold_eq_iff (solid _ sign)).mp rfl
  exact ⟨c, List.mem_append_left rest letter, same ▸ sign⟩

namespace NeedsSign

theorem mono (h : NeedsSign p) (sub : ∀ t, q t = true → p t = true) : NeedsSign q :=
  fun t holds => h t (sub t holds)

/-- A test that fails where nothing is found needs a sign of what is looked for. -/
theorem of_found {find : Text → Option Text} (h : NeedsSign fun t => (find t).isSome)
    (missed : ∀ t, find t = none → q t = false) : NeedsSign q := by
  refine h.mono fun t holds => ?_
  by_contra missing
  rw [missed t (Option.not_isSome_iff_eq_none.mp missing)] at holds
  cases holds

theorem or (h : NeedsSign p) (h' : NeedsSign q) : NeedsSign fun t => p t || q t := by
  intro t holds
  rcases (Bool.or_eq_true _ _).mp holds with left | right
  · exact h t left
  · exact h' t right

theorem and (h : NeedsSign p) (q : Text → Bool) : NeedsSign fun t => p t && q t :=
  h.mono fun _ holds => ((Bool.and_eq_true _ _).mp holds).1

theorem atSomePlace (h : NeedsSign p) : NeedsSign (atSomePlace p) := by
  intro t
  induction t with
  | nil => exact h []
  | cons c rest ih =>
      intro holds
      rcases (Bool.or_eq_true _ _).mp holds with here | later
      · exact h _ here
      · exact sign_cons (ih later)

theorem atSomeLine (h : NeedsSign p) : NeedsSign (atSomeLine p) := by
  refine h.or fun t => ?_
  induction t with
  | nil => exact nofun
  | cons c rest ih =>
      intro holds
      rcases (Bool.or_eq_true _ _).mp holds with here | later
      · exact sign_cons (h rest ((Bool.and_eq_true _ _).mp here).2)
      · exact sign_cons (ih later)

end NeedsSign

theorem needsSign_someLineBegins {words : List String}
    (sign : ∀ word ∈ words, ∃ c ∈ word.toList, c ∈ signs) : NeedsSign (someLineBegins words) := by
  refine NeedsSign.atSomeLine fun t begins => ?_
  obtain ⟨word, listed, start⟩ := List.any_eq_true.mp begins
  exact needsSign_prefix (sign word listed) t start

/-! ## The checks -/

theorem needsSign_isToken : NeedsSign isToken := by
  intro t token
  refine ⟨'.', ?_, by decide⟩
  by_contra missing
  rw [isToken, splitOn_of_not_mem missing] at token
  cases token

theorem needsSign_isSvg : NeedsSign isSvg :=
  (needsSign_caseless "<svg" (by decide)).of_found fun t missed => by rw [isSvg, missed]

theorem needsSign_isPageDoctype : NeedsSign isPageDoctype :=
  (needsSign_caseless "<!doctype" (by decide)).of_found fun t missed => by
    rw [isPageDoctype, missed]

theorem needsSign_isHtml : NeedsSign isHtml :=
  needsSign_isPageDoctype.or ((needsSign_head (by decide)).and _)

theorem needsSign_isXml : NeedsSign isXml := by
  refine (needsSign_caseless _ (by decide)).or (NeedsSign.and ?_ _)
  exact (needsSign_after "<" (by decide)).of_found fun t missed => by
    rw [beginsWithLetterAfter, missed, Option.any_none]

theorem needsSign_isPython : NeedsSign isPython :=
  needsSign_someLineBegins (by decide)

theorem needsSign_isJavaScript : NeedsSign isJavaScript :=
  ((needsSign_someLineBegins (by decide)).or (needsSign_hasPart (by decide))).or
    (needsSign_hasPart (by decide))

theorem needsSign_beginsHeading : NeedsSign beginsHeading := by
  intro t heading
  refine ⟨'#', ?_, by decide⟩
  cases t with
  | nil => cases heading
  | cons c rest =>
      by_cases hash : c = '#'
      · rw [hash]
        exact List.mem_cons_self
      · simp [beginsHeading, hash] at heading

theorem needsSign_beginsStrong : NeedsSign beginsStrong :=
  (needsSign_after "**" (by decide)).of_found fun t missed => by rw [beginsStrong, missed]

theorem needsSign_beginsLink : NeedsSign beginsLink := by
  intro t link
  refine ⟨'[', ?_, by decide⟩
  unfold beginsLink at link
  split at link
  · exact List.mem_cons_self
  · cases link

theorem needsSign_isMarkdown : NeedsSign isMarkdown :=
  (needsSign_beginsHeading.atSomeLine.or needsSign_beginsStrong.atSomePlace).or
    needsSign_beginsLink.atSomePlace

theorem needsSign_beginsEntry : NeedsSign beginsEntry := by
  intro t entry
  refine ⟨':', ?_, by decide⟩
  cases t with
  | nil => cases entry
  | cons c rest =>
      have behind := ((Bool.and_eq_true _ _).mp entry).2
      split at behind
      · rename_i found
        refine List.mem_cons_of_mem c ((List.dropWhile_sublist isWord).mem ?_)
        rw [found]
        exact List.mem_cons_self
      · cases behind

theorem needsSign_isYaml : NeedsSign isYaml :=
  needsSign_beginsEntry.atSomeLine.and _

theorem needsSign_json? : NeedsSign fun t => (json? t).isSome := by
  intro t answers
  have bracket : t.head? = some '{' ∨ t.head? = some '[' := by
    by_contra other
    have closed : ¬ (t.head? = some '{' || t.head? = some '[') = true := by simpa using other
    have missed : json? t = none := if_neg closed
    simp [missed] at answers
  rcases bracket with first | first
  · exact ⟨'{', List.mem_of_head? first, by decide⟩
  · exact ⟨'[', List.mem_of_head? first, by decide⟩

theorem NeedsSign.when (h : NeedsSign p) (format : Format) (confidence : Confidence) :
    NeedsSign fun t => (when p format confidence t).isSome :=
  h.mono fun t answers => by
    by_contra fails
    rw [Detect.when, if_neg fails] at answers
    cases answers

/-- The checks that come before the one for Base64. -/
theorem needsSign_of_earlier {check : Text → Option Guess} (earlier : check ∈ checks.take 9) :
    NeedsSign fun t => (check t).isSome := by
  simp only [checks, List.take_succ_cons, List.take_zero, List.mem_cons, List.not_mem_nil,
    or_false] at earlier
  rcases earlier with rfl | rfl | rfl | rfl | rfl | rfl | rfl | rfl | rfl
  · exact needsSign_isToken.when _ _
  · exact needsSign_json?
  · exact needsSign_isSvg.when _ _
  · exact needsSign_isHtml.when _ _
  · exact needsSign_isXml.when _ _
  · exact needsSign_isPython.when _ _
  · exact needsSign_isJavaScript.when _ _
  · exact needsSign_isMarkdown.when _ _
  · exact needsSign_isYaml.when _ _

theorem earlier_eq_none {check : Text → Option Guess} (earlier : check ∈ checks.take 9)
    (plain : ∀ c ∈ t, c ∉ signs) : check t = none := by
  rw [← Option.not_isSome_iff_eq_none]
  intro answers
  obtain ⟨c, inside, sign⟩ := needsSign_of_earlier earlier t answers
  exact plain c inside sign

/-! ## Base64 forms -/

/-- A Base64 form is its letters with padding behind them. -/
theorem exists_letters (bytes : Bytes) : ∃ letters count,
    Base64.encodeBytes bytes = letters ++ copies count '=' ∧
      (∀ c ∈ letters, isBase64Char c = true) ∧ count ≤ 2 ∧
      letters.length = (4 * bytes.length + 2) / 3 := by
  have letter : ∀ n < 64, isBase64Char (Base64.letter n) = true := by decide
  fun_induction Base64.encodeBytes bytes with
  | case1 => exact ⟨[], 0, rfl, List.forall_mem_nil _, by decide, rfl⟩
  | case2 a =>
      have small := Base64.parts_lt a 0 0
      refine ⟨[_, _], 2, rfl, ?_, by decide, by simp⟩
      simp only [List.forall_mem_cons]
      exact ⟨letter _ small.1, letter _ (by omega), List.forall_mem_nil _⟩
  | case3 a b =>
      have small := Base64.parts_lt a b 0
      refine ⟨[_, _, _], 1, rfl, ?_, by decide, by simp⟩
      simp only [List.forall_mem_cons]
      exact ⟨letter _ small.1, letter _ small.2.1, letter _ (by omega), List.forall_mem_nil _⟩
  | case4 a b c rest ih =>
      have small := Base64.parts_lt a b c
      obtain ⟨letters, count, spelled, all, few, long⟩ := ih
      refine ⟨_ :: _ :: _ :: _ :: letters, count, by rw [spelled]; rfl, ?_, few, ?_⟩
      · simp only [List.forall_mem_cons]
        exact ⟨letter _ small.1, letter _ small.2.1, letter _ small.2.2.1, letter _ small.2.2.2, all⟩
      · simp only [List.length_cons, long]
        omega

theorem isBase64_iff {bytes : Bytes} (squeezed : squeeze t = Base64.encodeBytes bytes) :
    isBase64 t = true ↔ 15 ≤ bytes.length := by
  obtain ⟨letters, count, spelled, all, few, long⟩ := exists_letters bytes
  have stop : (copies count '=').takeWhile isBase64Char = [] ∧
      (copies count '=').dropWhile isBase64Char = copies count '=' := by
    cases count <;> exact ⟨rfl, rfl⟩
  have padded : ∀ count ≤ 2,
      (["", "=", "=="].any fun padding => copies count '=' = padding.toList) = true := by
    decide
  have enough : 20 ≤ letters.length ↔ 15 ≤ bytes.length := by omega
  simp only [isBase64, squeezed, spelled, List.takeWhile_append_of_pos all,
    List.dropWhile_append_of_pos all, stop, List.append_nil, padded count few, Bool.and_true,
    decide_eq_true_iff, enough]

theorem length_of_isBase64 (letters : isBase64 t = true) : 20 ≤ t.length := by
  have enough := of_decide_eq_true ((Bool.and_eq_true _ _).mp letters).1
  have taken := (List.takeWhile_prefix isBase64Char (l := squeeze t)).length_le
  have squeezed : (squeeze t).length ≤ t.length := List.length_filter_le _ t
  omega

theorem not_mem_signs {c : Char} (sign : Base64.IsSign c ∨ c = '\n') : c ∉ signs := by
  have letters : ∀ n < 64, Base64.letter n ∉ signs := by decide
  rcases sign with (rfl | ⟨n, small, rfl⟩) | rfl
  · decide
  · exact letters n small
  · decide

/-- Where no sign is, the last check decides. -/
theorem guess?_of_plain (plain : ∀ c ∈ t, c ∉ signs) :
    guess? t = when isBase64 .base64 .medium (trim t) := by
  have plain' : ∀ c ∈ trim t, c ∉ signs := fun c member => plain c (mem_of_mem_trim member)
  have missed : ((checks.take 9).findSome? fun check => check (trim t)) = none :=
    List.findSome?_eq_none_iff.mpr fun check earlier => earlier_eq_none earlier plain'
  have listed : checks = checks.take 9 ++ [when isBase64 .base64 .medium] := rfl
  rw [guess?]
  split
  · rename_i short
    have no : ¬ isBase64 (trim t) = true := fun letters =>
      absurd (length_of_isBase64 letters) (by rw [minLength] at short; omega)
    rw [when, if_neg no]
  · rw [listed, List.findSome?_append, missed, Option.none_or, List.findSome?_singleton]

/-- A Base64 form that is wrapped in lines is taken for Base64 if it stands for fifteen octets,
and else for nothing: no other check answers. -/
theorem guess_of_spread {t w : Text}
    (wrapped : Base64.Spread (fun c => c == '\n') (Base64.encode t) w) :
    (guess? w = if 15 ≤ (Utf8.encode t).length then some ⟨.base64, .medium⟩ else none) ∧
    ∀ check ∈ checks.take 9, check w = none ∧ check (trim w) = none := by
  have plain : ∀ c ∈ w, c ∉ signs := by
    intro c member
    refine not_mem_signs ((wrapped.of_mem member).imp Base64.isSign_of_mem fun feed => ?_)
    exact beq_iff_eq.mp feed
  have squeezed : squeeze (trim w) = Base64.encodeBytes (Utf8.encode t) := by
    rw [squeeze_trim]
    refine (wrapped.mono fun c feed => ?_).squeeze_eq fun c member =>
      (Base64.isSign_of_mem member).solid
    rw [beq_iff_eq.mp feed]
    decide
  refine ⟨?_, fun check earlier => ⟨earlier_eq_none earlier plain,
    earlier_eq_none earlier fun c member => plain c (mem_of_mem_trim member)⟩⟩
  rw [guess?_of_plain plain, when]
  exact if_congr (isBase64_iff squeezed) rfl rfl

/-- Sixteen octets, wrapped after each twelve letters and in front of the padding. -/
theorem guess_of_spread_wrapped :
    Base64.Spread (fun c => c == '\n') (Base64.encode "def f(x): # [é]")
      "ZGVmIGYoeCk6\nICMgW8OpXQ\n==\n" ∧
    guess? "ZGVmIGYoeCk6\nICMgW8OpXQ\n==\n" = some ⟨.base64, .medium⟩ ∧
    ∀ check ∈ checks.take 9, check "ZGVmIGYoeCk6\nICMgW8OpXQ\n==\n" = none := by
  have wrapped : Base64.Spread (fun c => c == '\n') (Base64.encode "def f(x): # [é]")
      "ZGVmIGYoeCk6\nICMgW8OpXQ\n==\n" :=
    (Base64.Spread.iff_filter (by decide)).mpr (by decide)
  have guessed := guess_of_spread wrapped
  refine ⟨wrapped, ?_, fun check earlier => (guessed.2 check earlier).1⟩
  rw [guessed.1]
  decide

end

end Recast.Detect
