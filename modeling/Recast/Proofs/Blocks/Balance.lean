import Recast.Proofs.Blocks.Brace

/-! # When the braces balance

Each open block is a column on the stack, and the line that drops the column closes
the block. A line for `elif` or `else` closes it once more. The braces of the output
balance exactly when there is no such line.
-/

namespace Recast.Blocks

open Text

/-! ## Balance -/

/-- No beginning has more closing than opening braces, and the whole has as many of either. -/
def Balanced (t : Text) : Prop :=
  (∀ start, start <+: t → start.count '}' ≤ start.count '{') ∧ t.count '}' = t.count '{'

/-- Read inside `depth` open braces, the text never closes more than are open and leaves
    `remaining` of them open. -/
def Leads (depth : Nat) (t : Text) (remaining : Nat) : Prop :=
  (∀ start, start <+: t → start.count '}' ≤ depth + start.count '{') ∧
    remaining + t.count '}' = depth + t.count '{'

theorem balanced_iff_leads {t : Text} : Balanced t ↔ Leads 0 t 0 := by
  simp only [Balanced, Leads, Nat.zero_add]

theorem Leads.append {depth middle remaining : Nat} {s t : Text} (first : Leads depth s middle)
    (second : Leads middle t remaining) : Leads depth (s ++ t) remaining := by
  constructor
  · rintro start ⟨rest, spelled⟩
    rcases List.append_eq_append_iff.mp spelled with ⟨more, rfl, -⟩ | ⟨more, rfl, rfl⟩
    · exact first.1 start (List.prefix_append start more)
    · have open₁ := first.2
      have open₂ := second.1 more (List.prefix_append more rest)
      simp only [List.count_append]
      omega
  · have open₁ := first.2
    have open₂ := second.2
    simp only [List.count_append]
    omega

theorem Braceless.leads {t : Text} (free : Braceless t) (depth : Nat) : Leads depth t depth := by
  have none : t.count '{' = 0 ∧ t.count '}' = 0 :=
    ⟨List.count_eq_zero.mpr free.1, List.count_eq_zero.mpr free.2⟩
  refine ⟨fun start before => ?_, by omega⟩
  have fewer := before.sublist.count_le '}'
  omega

theorem leads_opening (depth : Nat) : Leads depth ['{'] (depth + 1) := by
  refine ⟨fun start before => ?_, by simp⟩
  have fewer := before.sublist.count_le '}'
  have none : List.count '}' ['{'] = 0 := rfl
  omega

theorem leads_closing (depth : Nat) : Leads (depth + 1) ['}'] depth := by
  refine ⟨fun start before => ?_, by simp⟩
  have fewer := before.sublist.count_le '}'
  have one : List.count '}' ['}'] = 1 := rfl
  omega

/-- `Leads` for lines one after the other. -/
def LeadsAll (depth : Nat) : List Text → Nat → Prop
  | [], remaining => depth = remaining
  | line :: rest, remaining => ∃ middle, Leads depth line middle ∧ LeadsAll middle rest remaining

theorem LeadsAll.append {depth middle remaining : Nat} {first second : List Text}
    (h₁ : LeadsAll depth first middle) (h₂ : LeadsAll middle second remaining) :
    LeadsAll depth (first ++ second) remaining := by
  induction first generalizing depth with
  | nil =>
      obtain rfl : depth = middle := h₁
      exact h₂
  | cons line rest ih =>
      obtain ⟨next, here, later⟩ := h₁
      exact ⟨next, here, ih later⟩

theorem LeadsAll.join {depth remaining : Nat} {ls : List Text} (h : LeadsAll depth ls remaining) :
    Leads depth (Text.join ['\n'] ls) remaining := by
  have feed : Braceless ['\n'] := by decide
  induction ls generalizing depth with
  | nil =>
      obtain rfl : depth = remaining := h
      exact Braceless.leads (by decide) depth
  | cons line rest ih =>
      obtain ⟨middle, here, later⟩ := h
      cases rest with
      | nil =>
          obtain rfl : middle = remaining := later
          exact here
      | cons next others => exact (here.append (feed.leads middle)).append (ih later)

/-- The number of times that a character occurs in some lines. -/
def total (c : Char) (ls : List Text) : Nat := ls.flatten.count c

@[simp] theorem total_append (c : Char) (first second : List Text) :
    total c (first ++ second) = total c first + total c second := by
  simp [total]

@[simp] theorem total_singleton (c : Char) (line : Text) : total c [line] = line.count c := by
  simp [total]

theorem count_join {c : Char} (other : c ≠ '\n') (ls : List Text) :
    (Text.join ['\n'] ls).count c = total c ls := by
  induction ls with
  | nil => rfl
  | cons line rest ih =>
      cases rest with
      | nil => simp [Text.join]
      | cons next others =>
          have none : List.count c ['\n'] = 0 := List.count_eq_zero.mpr (by simpa using other)
          simp only [Text.join, List.count_append, ih, none]
          simp [total]

theorem LeadsAll.total {depth remaining : Nat} {ls : List Text} (h : LeadsAll depth ls remaining) :
    remaining + total '}' ls = depth + total '{' ls := by
  have whole := h.join.2
  rwa [count_join (by decide), count_join (by decide)] at whole

/-! ## Runs -/

theorem indent_braceless (depth : Nat) : Braceless (indent depth) := by
  constructor <;> simp [indent]

theorem leads_closingLine (depth : Nat) : Leads (depth + 1) (indent depth ++ ['}']) depth :=
  ((indent_braceless depth).leads (depth + 1)).append (leads_closing depth)

theorem leadsAll_closeTo (column : Nat) (columns : Columns) :
    LeadsAll columns.length (closeTo column columns).1 (closeTo column columns).2.length := by
  induction columns with
  | nil => rfl
  | cons top rest ih =>
      simp only [closeTo]
      split
      · exact ⟨rest.length, leads_closingLine rest.length, ih⟩
      · rfl

theorem leadsAll_closeAll (columns : Columns) :
    LeadsAll columns.length (braceLines.closeAll columns) 0 := by
  induction columns with
  | nil => rfl
  | cons top rest ih => exact ⟨rest.length, leads_closingLine rest.length, ih⟩

theorem braceLine_of_blank {raw : Text} (blank : trim raw = []) (columns : Columns) :
    braceLine columns raw = ([[]], columns) := by
  simp [braceLine, blank]

/-- The blocks left open by a line that starts at its column. -/
def closed (columns : Columns) (raw : Text) : List Text × Columns :=
  closeTo (raw.length - (trimLeft raw).length) columns

theorem braceLine_of_opens {raw : Text} (solid : trim raw ≠ []) (columns : Columns)
    (opens : opensBrace (toBraces (trim raw)) = true) :
    braceLine columns raw =
      ((closed columns raw).1 ++ [indent (closed columns raw).2.length ++ toBraces (trim raw)],
        (raw.length - (trimLeft raw).length + blockWidth) :: (closed columns raw).2) := by
  simp [braceLine, solid, opens, closed]

theorem braceLine_of_not_opens {raw : Text} (solid : trim raw ≠ []) (columns : Columns)
    (stays : opensBrace (toBraces (trim raw)) = false) :
    ∃ ending, (ending = [] ∨ ending = [';']) ∧ braceLine columns raw =
      ((closed columns raw).1
        ++ [indent (closed columns raw).2.length ++ toBraces (trim raw) ++ ending],
        (closed columns raw).2) := by
  by_cases ended : terminated (toBraces (trim raw)) = true
  · exact ⟨[], .inl rfl, by simp [braceLine, solid, stays, ended, closed]⟩
  · exact ⟨[';'], .inr rfl, by simp [braceLine, solid, stays, ended, closed]⟩

/-- A line of some other kind than a continuation keeps the stack and the braces in step. -/
theorem leadsAll_braceLine (columns : Columns) {raw : Text} (free : Braceless raw)
    (single : '\n' ∉ raw) (apart : ¬ Continuation (trim raw)) :
    LeadsAll columns.length (braceLine columns raw).1 (braceLine columns raw).2.length := by
  by_cases blank : trim raw = []
  · rw [braceLine_of_blank blank]
    exact ⟨_, Braceless.leads (by decide) _, rfl⟩
  have closing := leadsAll_closeTo (raw.length - (trimLeft raw).length) columns
  have margin := indent_braceless (closed columns raw).2.length
  rcases toBraces_cases (free.mono fun c => mem_of_mem_trim) (single_trim single) with
    ⟨-, plain⟩ | ⟨-, opens⟩ | ⟨goes, -⟩
  · obtain ⟨ending, known, line⟩ := braceLine_of_not_opens blank columns plain.opensBrace
    have ended : Braceless ending := by rcases known with rfl | rfl <;> decide
    rw [line]
    refine closing.append ⟨_, ?_, rfl⟩
    exact ((margin.leads _).append (plain.leads _)).append (ended.leads _)
  · obtain ⟨body, inside, spelled⟩ := opens.spelled
    rw [braceLine_of_opens blank columns opens.opensBrace, spelled]
    refine closing.append ⟨_, ?_, rfl⟩
    exact (margin.leads _).append ((inside.leads _).append (leads_opening _))
  · exact absurd goes apart

/-- A continuation closes one block more than the stack does. -/
theorem total_braceLine (columns : Columns) {raw : Text} (free : Braceless raw)
    (single : '\n' ∉ raw) (goes : Continuation (trim raw)) :
    (braceLine columns raw).2.length + total '}' (braceLine columns raw).1 =
      columns.length + total '{' (braceLine columns raw).1 + 1 := by
  have solid : trim raw ≠ [] := by
    intro blank
    simpa [blank] using goes.head
  rcases toBraces_cases (free.mono fun c => mem_of_mem_trim) (single_trim single) with
    ⟨apart, -⟩ | ⟨apart, -⟩ | ⟨-, opens⟩
  · exact absurd goes apart
  · exact absurd goes apart
  -- The stack closes the block before it, and its own first sign does so once more.
  · obtain ⟨body, inside, spelled⟩ := opens.spelled
    have margin := ((indent_braceless (closed columns raw).2.length).leads 0).2
    have middle := (inside.leads 0).2
    have closing : (closed columns raw).2.length + total '}' (closed columns raw).1 =
        columns.length + total '{' (closed columns raw).1 :=
      (leadsAll_closeTo (raw.length - (trimLeft raw).length) columns).total
    rw [braceLine_of_opens solid columns opens.opensBrace, spelled]
    simp only [total_append, total_singleton, List.count_append, List.length_cons]
    have marks : List.count '}' ['}'] = 1 ∧ List.count '{' ['}'] = 0 ∧ List.count '}' ['{'] = 0 ∧
        List.count '{' ['{'] = 1 := by decide
    omega

/-- The continuations among some lines. -/
def continuations (raws : List Text) : Nat :=
  raws.countP fun raw => Continuation (trim raw)

theorem leadsAll_braceLines (columns : Columns) {raws : List Text}
    (free : ∀ raw ∈ raws, Braceless raw) (single : ∀ raw ∈ raws, '\n' ∉ raw)
    (apart : ∀ raw ∈ raws, ¬ Continuation (trim raw)) :
    LeadsAll columns.length (braceLines columns raws) 0 := by
  induction raws generalizing columns with
  | nil => exact leadsAll_closeAll columns
  | cons raw rest ih =>
      rw [List.forall_mem_cons] at free single apart
      exact (leadsAll_braceLine columns free.1 single.1 apart.1).append (ih _ free.2 single.2 apart.2)

/-- Over a whole run, one closing brace too many for each continuation. -/
theorem total_braceLines (columns : Columns) {raws : List Text}
    (free : ∀ raw ∈ raws, Braceless raw) (single : ∀ raw ∈ raws, '\n' ∉ raw) :
    total '}' (braceLines columns raws) =
      columns.length + total '{' (braceLines columns raws) + continuations raws := by
  -- What is open after a line is the height of the stack, short of one for each continuation.
  induction raws generalizing columns with
  | nil => simpa [continuations, braceLines] using (leadsAll_closeAll columns).total
  | cons raw rest ih =>
      rw [List.forall_mem_cons] at free single
      have later := ih (braceLine columns raw).2 free.2 single.2
      simp only [braceLines, total_append]
      by_cases goes : Continuation (trim raw)
      · have here := total_braceLine columns free.1 single.1 goes
        have one : continuations (raw :: rest) = continuations rest + 1 := by
          simp [continuations, goes]
        omega
      · have here := (leadsAll_braceLine columns free.1 single.1 goes).total
        have same : continuations (raw :: rest) = continuations rest := by
          simp [continuations, goes]
        omega

/-! ## Texts -/

/-- The output has one closing brace too many for each continuation. -/
theorem count_braceText {t : Text} (free : Braceless t) :
    (braceText t).count '}' = (braceText t).count '{' + continuations (lines t) := by
  rw [braceText, count_join (by decide), count_join (by decide)]
  simpa using total_braceLines [] (fun raw => braceless_of_mem_lines free)
    fun raw => single_of_mem_lines

/-- The braces balance exactly for the texts without a line for `elif` or `else`. -/
theorem balanced_braceText_iff {t : Text} (free : Braceless t) :
    Balanced (braceText t) ↔ ∀ raw ∈ lines t, ¬ Continuation (trim raw) := by
  constructor
  · intro balanced
    have none : continuations (lines t) = 0 := by
      have surplus := count_braceText free
      have even := balanced.2
      omega
    simpa [continuations] using none
  · intro apart
    rw [balanced_iff_leads]
    exact (leadsAll_braceLines [] (fun raw => braceless_of_mem_lines free)
      (fun raw => single_of_mem_lines) apart).join

/-- Blocks of each other kind, closed by dedents and by the end of the text. -/
theorem balanced_braceText_nested :
    Braceless "def f(n):\n  while n:\n      if n:\n            print(n)\nfor i in range(n):\n  f(i)" ∧
      Balanced (braceText
        "def f(n):\n  while n:\n      if n:\n            print(n)\nfor i in range(n):\n  f(i)") :=
  ⟨by decide, (balanced_braceText_iff (by decide)).mpr (by decide)⟩

/-- An `else` is closed twice: by the line before it and by its own brace. -/
theorem not_balanced_braceText_else :
    Braceless "if a:\n    x = 1\nelse:\n    x = 2" ∧
      ¬ Balanced (braceText "if a:\n    x = 1\nelse:\n    x = 2") :=
  ⟨by decide, fun balanced => absurd balanced.2 (by decide)⟩

end Recast.Blocks
