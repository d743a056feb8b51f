import Recast.Blocks.Rule
import Recast.Proofs.Text.Blank

/-! # What the parts of a line rule recognise

Each part returns pieces that spell the text it was given. A list of rules changes
a line at most once, as long as no rule of the list recognises what another one
writes.
-/

namespace Recast.Blocks

open Text

/-! ## Parts -/

theorem before?_eq_some {ending line before : Text} :
    before? ending line = some before ↔ line = before ++ ending := by
  simp only [before?, Option.ite_none_right_eq_some, List.isSuffixOf_iff_suffix,
    Option.some.injEq]
  constructor
  · rintro ⟨⟨start, rfl⟩, rfl⟩
    simp
  · rintro rfl
    simp

theorem captured?_eq_some {t out : Text} :
    captured? t = some out ↔ out = t ∧ t ≠ [] ∧ '\n' ∉ t := by
  simp only [captured?, Option.ite_none_left_eq_some, Option.some.injEq, Bool.or_eq_true,
    List.isEmpty_iff, List.any_eq_true, decide_eq_true_eq, exists_eq_right, not_or, ne_eq]
  constructor
  · rintro ⟨here, rfl⟩
    exact ⟨rfl, here⟩
  · rintro ⟨rfl, here⟩
    exact ⟨here, rfl⟩

theorem afterBlanks?_eq_some {t rest : Text} (h : afterBlanks? t = some rest) :
    ∃ blanks, blanks ≠ [] ∧ (∀ c ∈ blanks, isBlank c) ∧ t = blanks ++ rest := by
  cases t with
  | nil => simp [afterBlanks?] at h
  | cons c t =>
      simp only [afterBlanks?, Option.ite_none_right_eq_some, Option.some.injEq] at h
      obtain ⟨blank, rfl⟩ := h
      obtain ⟨more, others, spelled⟩ := exists_append_trimLeft t
      refine ⟨c :: more, List.cons_ne_nil c more, ?_, congrArg (c :: ·) spelled⟩
      exact List.forall_mem_cons.mpr ⟨blank, others⟩

theorem afterBlanks?_append {blanks : Text} (some : blanks ≠ []) (blank : ∀ c ∈ blanks, isBlank c)
    (t : Text) : afterBlanks? (blanks ++ t) = Option.some (trimLeft t) := by
  cases blanks with
  | nil => exact absurd rfl some
  | cons c blanks =>
      obtain ⟨here, others⟩ := List.forall_mem_cons.mp blank
      simp only [List.cons_append, afterBlanks?, here, if_true, trimLeft_append others]

theorem name?_eq_some {t name rest : Text} (h : name? t = some (name, rest)) :
    t = name ++ rest := by
  cases t with
  | nil => simp [name?] at h
  | cons c t =>
      simp only [name?, Option.ite_none_right_eq_some, Option.some.injEq, Prod.mk.injEq] at h
      obtain ⟨-, rfl, rfl⟩ := h
      simp

theorem word?_eq_some {t word rest : Text} (h : word? t = some (word, rest)) :
    t = word ++ rest ∧ word ≠ [] := by
  simp only [word?, Option.ite_none_left_eq_some, Option.some.injEq, Prod.mk.injEq,
    List.isEmpty_iff] at h
  obtain ⟨some, rfl, rfl⟩ := h
  exact ⟨List.takeWhile_append_dropWhile.symm, some⟩

theorem parameters?_eq_some {t parameters rest : Text} :
    parameters? t = some (parameters, rest) ↔
      t = '(' :: parameters ++ ')' :: rest ∧ ')' ∉ parameters := by
  unfold parameters?
  split
  · rename_i t
    simp [cutAt?_eq_some]
  · rename_i other
    simp only [reduceCtorEq, false_iff, not_and]
    intro spelled
    exact absurd spelled (other _)

theorem beforeOpening?_eq_some {line before : Text} :
    beforeOpening? line = some before ↔
      ∃ blanks : Text, (∀ c ∈ blanks, isBlank c) ∧ line = before ++ ')' :: blanks ++ ['{'] := by
  simp only [beforeOpening?, Option.bind_eq_bind, Option.bind_eq_some_iff, before?_eq_some]
  constructor
  · rintro ⟨line, rfl, spelled⟩
    obtain ⟨blanks, blank, whole⟩ := exists_trimRight_append line
    refine ⟨blanks, blank, ?_⟩
    rw [whole, spelled]
    simp
  · rintro ⟨blanks, blank, rfl⟩
    refine ⟨before ++ ')' :: blanks, rfl, ?_⟩
    rw [show before ++ ')' :: blanks = (before ++ [')']) ++ blanks by simp,
      trimRight_append blank, trimRight_concat_of_solid (by decide)]

section

variable {atLeast : Nat} {inner? : Text → Option Text} {t out : Text}

theorem capturedAfterBlanks?_eq_some (h : capturedAfterBlanks? atLeast inner? t = some out) :
    ∃ blanks rest, t = blanks ++ rest ∧ (∀ c ∈ blanks, isBlank c) ∧ atLeast ≤ blanks.length ∧
      inner? rest = some out ∧ out ≠ [] ∧ '\n' ∉ out := by
  obtain ⟨n, member, found⟩ := List.exists_of_findSome?_eq_some h
  simp only [List.mem_reverse, List.mem_range] at member
  simp only [Option.ite_none_left_eq_some, Nat.not_lt, Option.bind_eq_some_iff,
    captured?_eq_some] at found
  obtain ⟨enough, inner, read, rfl, some, single⟩ := found
  have short : n ≤ t.length :=
    (Nat.lt_succ_iff.mp member).trans (List.takeWhile_prefix isBlank).length_le
  refine ⟨t.take n, t.drop n, (List.take_append_drop n t).symm, ?_, ?_, read, some, single⟩
  · intro c here
    have start : t.take n <+: t.takeWhile isBlank :=
      List.prefix_of_prefix_length_le (List.take_prefix n t) (List.takeWhile_prefix isBlank)
        (by rw [List.length_take]; omega)
    exact List.mem_takeWhile_imp (start.mem here)
  · rw [List.length_take]
    omega

theorem isSome_capturedAfterBlanks? (atLeast : Nat) (inner? : Text → Option Text)
    {blanks rest : Text} (spelled : t = blanks ++ rest)
    (blank : ∀ c ∈ blanks, isBlank c) (enough : atLeast ≤ blanks.length)
    (read : inner? rest = some out) (some : out ≠ []) (single : '\n' ∉ out) :
    (capturedAfterBlanks? atLeast inner? t).isSome := by
  subst spelled
  refine List.findSome?_isSome_iff.mpr ⟨blanks.length, ?_, ?_⟩
  · simp only [List.mem_reverse, List.mem_range, List.takeWhile_append_of_pos blank,
      List.length_append]
    omega
  · have taken : captured? out = Option.some out := captured?_eq_some.mpr ⟨rfl, some, single⟩
    simp [Nat.not_lt.mpr enough, read, taken]

/-- All the white space is left out when something else follows it. -/
theorem capturedAfterBlanks?_append {blanks rest : Text} (blank : ∀ c ∈ blanks, isBlank c)
    (solid : trimLeft rest = rest) (enough : atLeast ≤ blanks.length)
    (read : inner? rest = some out) (some : out ≠ []) (single : '\n' ∉ out) :
    capturedAfterBlanks? atLeast inner? (blanks ++ rest) = Option.some out := by
  have run : (blanks ++ rest).takeWhile isBlank = blanks := by
    have none : rest.takeWhile isBlank = [] := by
      have whole : rest.takeWhile isBlank ++ trimLeft rest = rest :=
        List.takeWhile_append_dropWhile
      rw [solid] at whole
      exact List.append_left_eq_self.mp whole
    rw [List.takeWhile_append_of_pos blank, none, List.append_nil]
  have taken : captured? out = Option.some out := captured?_eq_some.mpr ⟨rfl, some, single⟩
  simp only [capturedAfterBlanks?, run, List.range_succ, List.reverse_append,
    List.reverse_singleton, List.singleton_append, List.findSome?_cons, if_neg enough.not_gt,
    List.drop_left, read, Option.bind_some, taken]

end

/-! ## Kept characters -/

/-- Every character is kept from the line or one of the signs. -/
def Kept (signs line t : Text) : Prop := ∀ c ∈ t, c ∈ line ∨ c ∈ signs

section

variable {signs line : Text}

theorem kept_append {s t : Text} :
    Kept signs line (s ++ t) ↔ Kept signs line s ∧ Kept signs line t :=
  List.forall_mem_append

theorem kept_signs {t : Text} (known : ∀ c ∈ t, c ∈ signs) : Kept signs line t :=
  fun c member => .inr (known c member)

theorem kept_part {t : Text} (inside : ∀ c ∈ t, c ∈ line) : Kept signs line t :=
  fun c member => .inl (inside c member)

theorem Kept.not_mem {t : Text} {c : Char} (h : Kept signs line t) (old : c ∉ line)
    (new : c ∉ signs) : c ∉ t :=
  fun member => (h _ member).elim old new

end

/-! ## Lists of rules -/

theorem applyRule_eq {line : Text} (single : '\n' ∉ line) (rule : Rule) :
    applyRule line rule = (rule line).getD line := by
  have whole : line.getLast? ≠ some '\n' := fun last => single (List.mem_of_getLast? last)
  simp only [applyRule, splitFinalNewline, if_neg whole, List.append_nil]
  cases rule line <;> rfl

theorem foldl_applyRule_of_none {rules : List Rule} {line : Text} (single : '\n' ∉ line)
    (none : ∀ rule ∈ rules, rule line = none) : rules.foldl applyRule line = line := by
  induction rules with
  | nil => rfl
  | cons rule rules ih =>
      obtain ⟨here, later⟩ := List.forall_mem_cons.mp none
      rw [List.foldl_cons, applyRule_eq single, here]
      exact ih later

/-- Where no rule recognises what a rule of the list writes, at most one rule applies. -/
theorem foldl_applyRule {rules : List Rule} {line : Text} (single : '\n' ∉ line)
    (settled : ∀ rule ∈ rules, ∀ out, rule line = some out →
      '\n' ∉ out ∧ ∀ later ∈ rules, later out = none) :
    (rules.foldl applyRule line = line ∧ ∀ rule ∈ rules, rule line = none) ∨
      ∃ rule ∈ rules, rule line = some (rules.foldl applyRule line) := by
  induction rules with
  | nil => exact .inl ⟨rfl, by simp⟩
  | cons rule rules ih =>
      rw [List.foldl_cons, applyRule_eq single]
      cases applied : rule line with
      | none =>
          have rest := ih fun r member out h =>
            (settled r (List.mem_cons_of_mem _ member) out h).imp_right
              fun quiet l later => quiet l (List.mem_cons_of_mem _ later)
          rcases rest with ⟨same, none⟩ | ⟨r, member, h⟩
          · exact .inl ⟨same, List.forall_mem_cons.mpr ⟨applied, none⟩⟩
          · exact .inr ⟨r, List.mem_cons_of_mem _ member, h⟩
      | some out =>
          obtain ⟨single', quiet⟩ := settled rule List.mem_cons_self out applied
          refine .inr ⟨rule, List.mem_cons_self, ?_⟩
          rw [applied, Option.getD_some, foldl_applyRule_of_none single'
            fun r member => quiet r (List.mem_cons_of_mem _ member)]

/-- The first rule that applies decides. -/
theorem foldl_applyRule_at {rules : List Rule} {rule : Rule} {line out : Text}
    (single : '\n' ∉ line)
    (settled : ∀ rule ∈ rules, ∀ out, rule line = some out →
      '\n' ∉ out ∧ ∀ later ∈ rules, later out = none)
    (n : Nat) (before : (rules.take n).all (fun other => (other line).isNone) = true)
    (here : rules[n]? = some rule) (h : rule line = some out) :
    rules.foldl applyRule line = out := by
  obtain ⟨short, rfl⟩ := List.getElem?_eq_some_iff.mp here
  have none : ∀ other ∈ rules.take n, other line = none := by simpa using before
  obtain ⟨single', quiet⟩ := settled _ (List.getElem_mem short) out h
  have later : (rules.drop (n + 1)).foldl applyRule out = out :=
    foldl_applyRule_of_none single' fun other member => quiet other (List.mem_of_mem_drop member)
  calc
    rules.foldl applyRule line
        = (rules.take n ++ rules[n] :: rules.drop (n + 1)).foldl applyRule line := by
          rw [← List.drop_eq_getElem_cons short, List.take_append_drop]
    _ = out := by
          rw [List.foldl_append, foldl_applyRule_of_none single none, List.foldl_cons,
            applyRule_eq single, h, Option.getD_some, later]

end Recast.Blocks
