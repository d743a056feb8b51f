import Recast.Proofs.Yaml.PlainScalar
import Recast.Proofs.Yaml.Quoted

/-! # Steps over what is written

The parts that a document is written of, one by one: a scalar, an empty collection, the
indicators in front of items, keys and values. Each makes the same tokens whatever follows it.
-/

namespace Recast.Yaml

open Text Cursor

/-! ## Written scalars -/

/-- A scalar as it is written, and the token that is made of it. -/
inductive Written (fold? : Option Nat) : Text → Token → Prop where
  | plain {rs : List Text} (readable : Readable rs) (column : Nat) :
      Written fold? (plainRuns fold? column rs) (.scalar rs.flatten true)
  | quoted {double : Bool} {w t : Text} (spells : Spells double w t) :
      Written fold? (quoteOf double :: (w ++ [quoteOf double])) (.scalar t false)

theorem readable_of_plain {t : Text} (plain : Style.ofText t = .plain) : Readable (runs t) := by
  simp only [Style.ofText] at plain
  split at plain
  · rename_i allowed
    simp only [Bool.and_eq_true, decide_eq_true_eq] at allowed
    refine readable_runs allowed.2 ?_
    rintro rfl
    exact absurd allowed.1 (by decide)
  · split at plain <;> cases plain

theorem exists_written {fold? : Option Nat} (deep : ∀ indent, fold? = some indent → 0 < indent)
    {t : Text} (single : isMultiline t = true → fold?.isSome) (column : Nat) :
    ∃ token, Written fold? ((Style.ofText t).write fold? column t) token := by
  by_cases plain : Style.ofText t = .plain
  · rw [plain]
    exact ⟨_, .plain (readable_of_plain plain) column⟩
  · obtain ⟨double, w, read, same, spells⟩ := exists_spells_of_quoted plain deep single column
    rw [same]
    exact ⟨_, .quoted spells⟩

theorem Written.solid {fold? : Option Nat} {w : Text} {token : Token} (h : Written fold? w token)
    (rest : Text) : Solid (w ++ rest) := by
  cases h with
  | plain readable column => exact readable.words.solid_append column rest
  | @quoted double => cases double <;> exact solid_cons (by decide) _

theorem Written.ne_nil {fold? : Option Nat} {w : Text} {token : Token} (h : Written fold? w token) :
    w ≠ [] := by
  cases h with
  | plain readable column =>
      obtain ⟨v, rs, rfl, word, -⟩ := readable.words.exists_first fold?
      rw [plainRuns_word word]
      exact List.append_ne_nil_of_left_ne_nil word.nonempty _
  | quoted => exact List.cons_ne_nil _ _

namespace Scan

variable {c : Cursor} {allowed : Bool} {indent : Int} {outer : List Int} {tokens : List Token}

/-- The candidate for a key that starts at a place. -/
def noted (c : Cursor) (allowed : Bool) (indent : Int) (tokens : List Token) :
    List (Nat × Candidate) :=
  if allowed then
    [(0, ⟨tokens.length, decide (indent = c.column), c.index, c.line, c.column⟩)]
  else []

/-- The state behind a node, whose first place is `c`; `tokens` were those in front of it. -/
def behind (c : Cursor) (allowed : Bool) (indent : Int) (tokens : List Token) (s : Scan) : Scan :=
  { s with candidates := noted c allowed indent tokens }

theorem noteCandidate_between : (between c allowed indent outer tokens).noteCandidate =
    .ok (behind c allowed indent tokens (between c allowed indent outer tokens)) := by
  cases allowed <;> rfl

theorem readToken_plainScalar {w rest : Text} (word : IsWord w) (opens : Opens w)
    (ends : EndsWord rest) (h : c.rest = w ++ rest) :
    (between c allowed indent outer tokens).readToken =
      (between c allowed indent outer tokens).plainScalar := by
  obtain ⟨ch, tail, rfl, first⟩ := opens.first
  have dashes : c.isAtMark "---" = false :=
    isAtMark_eq_false (by decide) opens.dashes ends h
  have dots : c.isAtMark "..." = false :=
    isAtMark_eq_false (by decide) opens.dots ends h
  have solid := (solid_char (word.solid ch List.mem_cons_self)).2.2
  rcases first with plain | ⟨some, soft⟩
  · have starts : startsPlain false ch (tail ++ rest) = true := by simp [startsPlain, solid, plain]
    have other (d : Char) (known : isIndicator d = true) : ch ≠ d := by
      rintro rfl
      rw [plain] at known
      cases known
    simp only [readToken, between, h, dashes, dots, other '%' rfl, other '[' rfl,
      other ']' rfl, other '\x7b' rfl, other '\x7d' rfl, other ',' rfl, other '-' rfl, other '?' rfl,
      other ':' rfl, other '*' rfl, other '&' rfl, other '!' rfl, other '|' rfl, other '>' rfl,
      other '\'' rfl, other '"' rfl, List.cons_append, decide_false, Bool.and_false, Bool.false_and,
      Bool.false_eq_true, if_false]
    exact if_pos starts
  · obtain ⟨d, tail, rfl⟩ := List.exists_cons_of_ne_nil some
    have solid' := (solid_char (word.solid d (by simp))).2.2
    have parted : isParted (d :: (tail ++ rest)) = false := solid'
    have starts : startsPlain false ch (d :: (tail ++ rest)) = true := by
      rcases soft with rfl | rfl | rfl <;> simp [startsPlain, parted]
    rcases soft with rfl | rfl | rfl <;>
      simp only [readToken, between, h, dashes, dots, parted, List.cons_append, Bool.and_false,
        Bool.false_eq_true, if_false] <;>
      simp [starts]

theorem readToken_plain {fold? : Option Nat} {rs : List Text} (readable : Readable rs)
    (deep : ∀ fold, fold? = some fold → indent + 1 ≤ fold ∧ 0 < fold) (column : Nat) {rest : Text}
    (ends : EndsWord rest) (inside : indent ≤ c.column)
    (h : c.rest = plainRuns fold? column rs ++ rest) :
    ∃ c₁, Passes (plainRuns fold? column rs) c c₁ ∧
      ∀ allowed outer tokens ended c', PlainEnd (indent + 1) c₁ ended c' →
        (between c allowed indent outer tokens).readToken =
          .ok (behind c allowed indent tokens
            (between c' ended indent outer (.scalar rs.flatten true :: tokens))) := by
  obtain ⟨c₁, passes, read⟩ := readPlain_words readable.words deep column h (by omega)
  refine ⟨c₁, passes, fun allowed outer tokens ended c' stop => ?_⟩
  have long : rs.length < c.rest.length + 1 := by
    have count := readable.words.length_le fold? column
    rw [h, List.length_append]
    omega
  have first : (between c allowed indent outer tokens).readToken =
      (between c allowed indent outer tokens).plainScalar := by
    obtain ⟨w, rs', rfl, word, later⟩ := readable.words.exists_first fold?
    rw [plainRuns_word word, List.append_assoc] at h
    exact readToken_plainScalar word (readable.opens w rfl) (later _ ends) h
  rw [first, plainScalar, noteCandidate_between, ok_bind]
  have text := read (c.rest.length + 1) [] false ended c' long stop
  simp only [behind, between, bne_self_eq_false, text]
  rfl

theorem readToken_quoted {double : Bool} {w t : Text} (spells : Spells double w t) {rest : Text}
    (ends : EndsWord rest) (h : c.rest = quoteOf double :: (w ++ [quoteOf double]) ++ rest) :
    ∃ c₁, Passes (quoteOf double :: (w ++ [quoteOf double])) c c₁ ∧
      ∀ allowed indent outer tokens, (between c allowed indent outer tokens).readToken =
        .ok (behind c allowed indent tokens
          (between c₁ false indent outer (.scalar t false :: tokens))) := by
  have apart : double = false → rest.head? ≠ some '\'' := by
    rintro - first
    cases ends with
    | finish => cases first
    | loose loose =>
        cases first
        exact absurd loose (by decide)
    | colon => cases first
  have there : Passes [quoteOf double] c (c.advance 1) := passes_advance (w := [_]) h
  have left : (c.advance 1).rest = w ++ quoteOf double :: rest := by
    have place : (c.advance 1).rest = w ++ [quoteOf double] ++ rest := there.rest_eq h
    rwa [List.append_assoc] at place
  have enough : w.length < c.rest.length + 1 := by
    rw [h]
    simp only [List.length_append, List.length_cons]
    omega
  obtain ⟨c₁, read, passes⟩ := readQuoted_spells spells apart enough left
  refine ⟨c₁, there.trans passes, fun allowed indent outer tokens => ?_⟩
  have first : (between c allowed indent outer tokens).readToken =
      (between c allowed indent outer tokens).quotedScalar double := by
    cases double with
    | true => simp [readToken, between, h, quoteOf, isAtMark, after?, List.isPrefixOf?]
    | false => simp [readToken, between, h, quoteOf, isAtMark, after?, List.isPrefixOf?]
  rw [first, quotedScalar, nodePart, noteCandidate_between, ok_bind]
  have here : (behind c allowed indent tokens (between c allowed indent outer tokens)).cursor = c :=
    rfl
  rw [here, read]
  rfl

/-! ## Values -/

/-- What may follow a value inside a collection at column `indent`: the end, or a line that starts
    no further to the right. -/
inductive Ends (indent : Int) : Text → Text → Nat → Prop where
  | finish : Ends indent [] [] 0
  | line {k : Nat} {rest : Text} (solid : Solid rest) (left : rest = [] ∨ (k : Int) ≤ indent) :
      Ends indent (newLine k ++ rest) rest k

variable {s : Scan} {k k' : Nat} {text next rest w : Text} {token : Token} {fold? : Option Nat}

theorem Ends.endsWord (ends : Ends indent text next k) : EndsWord text := by
  cases ends with
  | finish => exact .finish
  | line => exact .loose rfl _

theorem resting_behind {c' : Cursor} {ended : Bool} {later : List Token} (line : c.line ≤ c'.line)
    (free : allowed = true → indent < c.column) :
    Resting (behind c allowed indent tokens (between c' ended indent outer later)) indent outer
      later where
  flow := rfl
  indent := rfl
  outer := rfl
  count := rfl
  tokens := rfl
  waiting found member := by
    cases allowed with
    | false => cases member
    | true =>
        obtain rfl := List.mem_singleton.mp member
        exact ⟨rfl, decide_eq_false (Int.ne_of_lt (free rfl)), line⟩

/-- The state behind a node goes on with what follows. -/
theorem Ends.arrives {c' : Cursor} {later : List Token} (ends : Ends indent text next k)
    (h : c'.rest = text) (line : c.line ≤ c'.line) (free : allowed = true → indent < c.column) :
    Arrives (behind c allowed indent tokens (between c' false indent outer later)) next k true indent
      outer later := by
  have resting : Resting (behind c allowed indent tokens (between c' false indent outer later))
      indent outer later := resting_behind line free
  cases ends with
  | finish => exact resting.arrives_end h
  | line solid => exact resting.arrives_newLine h solid

/-- A plain scalar has already passed over the end of its line. -/
theorem arrives_nextLine {index line : Nat} {later : List Token} (solid : Solid rest)
    (past : c.line < line) (free : allowed = true → indent < c.column) :
    Arrives (behind c allowed indent tokens (between ⟨rest, index, line, k⟩ true indent outer later))
      rest k true indent outer later := by
  have resting : Resting (behind c allowed indent tokens
      (between ⟨rest, index, line, k⟩ true indent outer later)) indent outer later :=
    resting_behind (Nat.le_of_lt past) free
  refine resting.arrives_spaces (k := 0) ?_ rfl solid
  intro found member
  cases allowed with
  | false => cases member
  | true =>
      obtain rfl := List.mem_singleton.mp member
      exact past

theorem Ends.exists_plainEnd {c' : Cursor} {later : List Token} (ends : Ends indent text next k)
    (h : c'.rest = text) (line : c.line ≤ c'.line) (free : allowed = true → indent < c.column) :
    ∃ ended c'', PlainEnd (indent + 1) c' ended c'' ∧
      Arrives (behind c allowed indent tokens (between c'' ended indent outer later)) next k true
        indent outer later := by
  cases ends with
  | finish => exact ⟨false, c', .finish h, (resting_behind line free).arrives_end h⟩
  | line solid left =>
      refine ⟨true, _, .line h solid (left.imp_right Int.lt_add_one_of_le), ?_⟩
      exact arrives_nextLine solid (Nat.lt_succ_of_le line) free

theorem Arrives.scalar (h : Arrives s (w ++ text) k allowed indent outer tokens)
    (written : Written fold? w token)
    (deep : ∀ fold, fold? = some fold → indent + 1 ≤ fold ∧ 0 < fold) (inside : indent ≤ k)
    (free : allowed = true → indent < k) (ends : Ends indent text next k') :
    ∃ s', Reaches 1 s s' ∧ Arrives s' next k' true indent outer (token :: tokens) := by
  obtain ⟨index, line, step⟩ :=
    h.step_eq (List.append_ne_nil_of_left_ne_nil written.ne_nil _) inside
  cases written with
  | plain readable column =>
      obtain ⟨c', passes, read⟩ := readToken_plain (c := ⟨_, index, line, k⟩) readable deep column
        ends.endsWord inside rfl
      obtain ⟨ended, c'', stop, arrives⟩ := ends.exists_plainEnd (passes.rest_eq rfl) passes.line free
      exact ⟨_, .step (step.trans (read _ _ _ _ _ stop)) nofun (.refl _), arrives⟩
  | quoted spells =>
      obtain ⟨c', passes, read⟩ := readToken_quoted (c := ⟨_, index, line, k⟩) spells ends.endsWord rfl
      exact ⟨_, .step (step.trans (read _ _ _ _)) nofun (.refl _),
        ends.arrives (passes.rest_eq rfl) passes.line free⟩

/-- The two characters of an empty collection, with their tokens. -/
inductive Empty : Char → Char → Token → Token → Prop where
  | array : Empty '[' ']' .flowSequenceStart .flowSequenceEnd
  | object : Empty '\x7b' '\x7d' .flowMappingStart .flowMappingEnd

variable {first last : Char} {token' : Token}

/-- The state between the two. -/
def within (c : Cursor) (allowed : Bool) (indent : Int) (outer : List Int) (tokens : List Token)
    (token : Token) : Scan :=
  { behind c allowed indent tokens (between (c.advance 1) true indent outer (token :: tokens)) with
    flow := 1 }

theorem readToken_open (empty : Empty first last token token') (h : c.rest = first :: rest) :
    (between c allowed indent outer tokens).readToken =
      .ok (within c allowed indent outer tokens token) := by
  have opened : (between c allowed indent outer tokens).readToken =
      (between c allowed indent outer tokens).openFlow token := by
    cases empty <;> simp [readToken, between, h, isAtMark, after?, List.isPrefixOf?]
  rw [opened, openFlow, noteCandidate_between]
  rfl

theorem step_close (empty : Empty first last token token') (h : c.rest = first :: last :: rest) :
    (within c allowed indent outer tokens token).step =
      .ok (behind c allowed indent tokens
        (between ((c.advance 1).advance 1) false indent outer (token' :: token :: tokens))) := by
  have cursor : (within c allowed indent outer tokens token).cursor = c.advance 1 := rfl
  have solid : Solid (within c allowed indent outer tokens token).cursor.rest := by
    rw [cursor, rest_advance, h]
    cases empty <;> exact solid_cons (by decide) _
  have kept : (within c allowed indent outer tokens token).giveUpOld =
      .ok (within c allowed indent outer tokens token) := by
    cases allowed with
    | false => rfl
    | true => simp [giveUpOld, giveUp, within, behind, noted, between, maxKeyLength]
  have closing : (within c allowed indent outer tokens token).readToken =
      (within c allowed indent outer tokens token).closeFlow token' := by
    cases empty <;>
      simp [readToken, within, behind, between, h, isAtMark, after?, List.isPrefixOf?]
  have here : (within c allowed indent outer tokens token).giveUpHere =
      .ok (within c allowed indent outer tokens token) := by
    cases allowed <;> rfl
  rw [step, skipAsides_self solid, kept, ok_bind, unwind, if_pos (by simp [within]), closing,
    closeFlow, here, ok_bind]
  rfl

theorem Arrives.empty (h : Arrives s (first :: last :: text) k allowed indent outer tokens)
    (empty : Empty first last token token') (inside : indent ≤ k)
    (free : allowed = true → indent < k) (ends : Ends indent text next k') :
    ∃ s', Reaches 2 s s' ∧ Arrives s' next k' true indent outer (token' :: token :: tokens) := by
  obtain ⟨index, line, step⟩ := h.step_eq (List.cons_ne_nil _ _) inside
  have opened := step.trans (readToken_open empty rfl)
  have closed : (within ⟨first :: last :: text, index, line, k⟩ allowed indent outer tokens token).step =
      .ok _ := step_close empty rfl
  refine ⟨_, .step opened ?_ (.step closed ?_ (.refl _)), ends.arrives rfl (Nat.le_refl _) free⟩
  · cases empty <;> exact nofun
  · cases empty <;> exact nofun

/-! ## Indicators -/

/-- The columns around a collection at column `k`, which starts there unless it is open. -/
def around (indent : Int) (k : Nat) (outer : List Int) : List Int :=
  if indent < k then indent :: outer else outer

/-- The tokens once a collection at column `k` is open. -/
def begun (indent : Int) (k : Nat) (start : Token) (tokens : List Token) : List Token :=
  if indent < k then start :: tokens else tokens

/-- The characters that stand before an item, a marked key and its value, with the tokens for the
    collection and for themselves. -/
inductive Indicator : Char → Token → Token → Prop where
  | item : Indicator '-' .blockSequenceStart .blockEntry
  | key : Indicator '?' .blockMappingStart .key
  | value : Indicator ':' .blockMappingStart .value

theorem openBlock_between (start : Token) (inside : indent ≤ c.column) :
    (between c allowed indent outer tokens).openBlock tokens.length c.column start =
      between c allowed c.column (around indent c.column outer)
        (begun indent c.column start tokens) := by
  by_cases opens : indent < c.column
  · simp [openBlock, insert, between, around, begun, opens]
  · have same : indent = c.column := Int.le_antisymm inside (Int.not_lt.mp opens)
    simp [openBlock, between, around, begun, same]

theorem readToken_colon {s : Scan} (h : s.cursor.rest = ':' :: rest) (flow : s.flow = 0)
    (parted : isParted rest = true) : s.readToken = s.colon := by
  have dashes : s.cursor.isAtMark "---" = false := by
    simp [isAtMark, after?, List.isPrefixOf?, h]
  have dots : s.cursor.isAtMark "..." = false := by
    simp [isAtMark, after?, List.isPrefixOf?, h]
  simp only [readToken, h, dashes, dots, Bool.and_false, Bool.false_eq_true, if_false]
  simp [parted, flow]

/-- A line between documents has no white space behind its first character. -/
theorem not_isAtMark_indicator {ch : Char} {start : Token} (indicator : Indicator ch start token)
    (parted : isParted rest = true) (h : c.rest = ch :: rest) :
    c.isAtMark "---" = false ∧ c.isAtMark "..." = false := by
  constructor
  · cases rest with
    | nil => cases indicator <;> simp [isAtMark, after?, List.isPrefixOf?, h]
    | cons d rest =>
        have other : '-' ≠ d := by
          rintro rfl
          exact absurd (show isParting '-' = true from parted) (by decide)
        cases indicator <;> simp [isAtMark, after?, List.isPrefixOf?, h, other]
  · cases indicator <;> simp [isAtMark, after?, List.isPrefixOf?, h]

theorem readToken_indicator {ch : Char} {start : Token} (indicator : Indicator ch start token)
    (parted : isParted rest = true) (inside : indent ≤ c.column) (h : c.rest = ch :: rest) :
    (between c true indent outer tokens).readToken =
      .ok (between (c.advance 1) true c.column (around indent c.column outer)
        (token :: begun indent c.column start tokens)) := by
  obtain ⟨dashes, dots⟩ := not_isAtMark_indicator indicator parted h
  have opened : (between c true indent outer tokens).openBlock
      (between c true indent outer tokens).count (between c true indent outer tokens).column start =
    between c true c.column (around indent c.column outer)
      (begun indent c.column start tokens) := openBlock_between start inside
  cases indicator with
  | item =>
      have reads : (between c true indent outer tokens).readToken =
          (between c true indent outer tokens).blockEntry := by
        simp only [readToken, between, h, dashes, dots, Bool.and_false, Bool.false_eq_true, if_false]
        simp [parted]
      rw [reads, blockEntry, if_neg (by simp [between]), opened]
      rfl
  | key =>
      have reads : (between c true indent outer tokens).readToken =
          (between c true indent outer tokens).markedKey := by
        simp only [readToken, between, h, dashes, dots, Bool.and_false, Bool.false_eq_true, if_false]
        simp [parted]
      rw [reads, markedKey, if_neg (by simp [between]), opened]
      rfl
  | value =>
      have none : (between c true indent outer tokens).candidates.lookup
          (between c true indent outer tokens).flow = none := rfl
      rw [readToken_colon h rfl parted, colon]
      simp only [none]
      rw [if_neg (by simp [between]), opened]
      rfl

theorem Arrives.indicator {ch : Char} {start : Token} (indicator : Indicator ch start token)
    (h : Arrives s (ch :: rest) k true indent outer tokens) (inside : indent ≤ k)
    (parted : isParted rest = true) :
    ∃ c : Cursor, c.rest = rest ∧ c.column = k + 1 ∧
      Reaches 1 s (between c true k (around indent k outer) (token :: begun indent k start tokens)) := by
  obtain ⟨index, line, step⟩ := h.step_eq (List.cons_ne_nil _ _) inside
  have read := step.trans (readToken_indicator indicator parted inside rfl)
  have mark : ch ≠ '\uFEFF' := by
    cases indicator <;> decide
  have place : (⟨ch :: rest, index, line, k⟩ : Cursor).advance 1 = ⟨rest, index + 1, line, k + 1⟩ :=
    advance_one mark rfl
  rw [place] at read
  refine ⟨_, rfl, rfl, .step read ?_ (.refl _)⟩
  cases indicator <;> exact nofun

/-! ## Keys -/

/-- The state at the colon behind a key. -/
def atColon (c c₁ : Cursor) (indent : Int) (outer : List Int) (tokens : List Token) (token : Token) :
    Scan :=
  behind c true indent tokens (between c₁ false indent outer (token :: tokens))

variable {c₁ : Cursor}

/-- The tokens for the key are put in front of what was read already. -/
theorem colon_atColon (inside : indent ≤ c.column) :
    (atColon c c₁ indent outer tokens token).colon =
      .ok (between (c₁.advance 1) false c.column (around indent c.column outer)
        (.value :: token :: .key :: begun indent c.column .blockMappingStart tokens)) := by
  have two : tokens.length + 1 + 1 - tokens.length = 2 := by omega
  by_cases opens : indent < c.column
  · simp [colon, atColon, behind, between, noted, insert, openBlock, add, around, begun, opens, two,
      pure_eq_ok]
  · have same : indent = c.column := Int.le_antisymm inside (Int.not_lt.mp opens)
    simp [colon, atColon, behind, between, noted, insert, openBlock, add, around, begun, same,
      pure_eq_ok]

section

variable (passes : Passes w c c₁) (flat : ∀ ch ∈ w, endsLine ch = false) (inside : indent ≤ c.column)
  (h : c₁.rest = ':' :: rest) (parted : isParted rest = true)

include passes flat inside h parted

theorem step_atColon (short : w.length ≤ maxKeyLength) :
    (atColon c c₁ indent outer tokens token).step =
      .ok (between (c₁.advance 1) false c.column (around indent c.column outer)
        (.value :: token :: .key :: begun indent c.column .blockMappingStart tokens)) := by
  have solid : Solid (atColon c c₁ indent outer tokens token).cursor.rest :=
    h ▸ solid_cons (by decide) _
  obtain ⟨line, column⟩ := passes.flat flat
  have kept : (atColon c c₁ indent outer tokens token).giveUpOld =
      .ok (atColon c c₁ indent outer tokens token) := by
    have distance : c₁.index - c.index = w.length := by
      rw [passes.index, Nat.add_sub_cancel_left]
    simp [giveUpOld, giveUp, atColon, behind, noted, between, line, distance, short]
  have stays : (atColon c c₁ indent outer tokens token).indent ≤
      (atColon c c₁ indent outer tokens token).column :=
    Int.le_trans inside (Int.ofNat_le.mpr column)
  rw [step, skipAsides_self solid, kept, ok_bind, unwind_self stays, readToken_colon h rfl parted,
    colon_atColon inside]

/-- A key that is too long is none, and a colon behind it has no place. -/
theorem fails_atColon (long : maxKeyLength < w.length) :
    Fails (atColon c c₁ indent outer tokens token) := by
  have solid : Solid (atColon c c₁ indent outer tokens token).cursor.rest :=
    h ▸ solid_cons (by decide) _
  obtain ⟨line, column⟩ := passes.flat flat
  have distance : c₁.index - c.index = w.length := by
    rw [passes.index, Nat.add_sub_cancel_left]
  refine ⟨0, _, .malformed, .refl _, ?_⟩
  rw [step, skipAsides_self solid]
  by_cases required : indent = c.column
  · have lost : (atColon c c₁ indent outer tokens token).giveUpOld = .error .malformed := by
      simp [giveUpOld, giveUp, atColon, behind, noted, between, line, distance, long, required]
    rw [lost]
    rfl
  · have lost : (atColon c c₁ indent outer tokens token).giveUpOld =
        .ok (between c₁ false indent outer (token :: tokens)) := by
      simp [giveUpOld, giveUp, atColon, behind, noted, between, line, distance, long, required]
    have stays : (between c₁ false indent outer (token :: tokens)).indent ≤
        (between c₁ false indent outer (token :: tokens)).column :=
      Int.le_trans inside (Int.ofNat_le.mpr column)
    rw [lost, ok_bind, unwind_self stays, readToken_colon h rfl parted]
    rfl

end

theorem Arrives.exists_atColon (h : Arrives s (w ++ ':' :: rest) k true indent outer tokens)
    (written : Written none w token) (inside : indent ≤ k) (parted : isParted rest = true) :
    ∃ c c₁ : Cursor, c.column = k ∧ Passes w c c₁ ∧ c₁.rest = ':' :: rest ∧
      Reaches 1 s (atColon c c₁ indent outer tokens token) := by
  obtain ⟨index, line, step⟩ :=
    h.step_eq (List.append_ne_nil_of_left_ne_nil written.ne_nil _) inside
  have ends : EndsWord (':' :: rest) := .colon parted
  have unfolded : ∀ fold, (none : Option Nat) = some fold → indent + 1 ≤ fold ∧ 0 < fold := by
    intro fold known
    cases known
  cases written with
  | plain readable column =>
      obtain ⟨c₁, passes, read⟩ := readToken_plain (c := ⟨_, index, line, k⟩) readable unfolded column
        ends inside rfl
      have left := passes.rest_eq rfl
      have here := step.trans (read _ _ _ _ _ (.colon left parted))
      exact ⟨_, c₁, rfl, passes, left, .step here nofun (.refl _)⟩
  | quoted spells =>
      obtain ⟨c₁, passes, read⟩ := readToken_quoted (c := ⟨_, index, line, k⟩) spells ends rfl
      have here := step.trans (read _ _ _ _)
      exact ⟨_, c₁, rfl, passes, passes.rest_eq rfl, .step here nofun (.refl _)⟩

/-- A key and its colon, unless it is too long for the line of its value. -/
theorem Arrives.key (h : Arrives s (w ++ ':' :: rest) k true indent outer tokens)
    (written : Written none w token) (flat : ∀ ch ∈ w, endsLine ch = false) (inside : indent ≤ k)
    (parted : isParted rest = true) (short : w.length ≤ maxKeyLength) :
    ∃ c : Cursor, c.rest = rest ∧ k ≤ c.column ∧
      Reaches 2 s (between c false k (around indent k outer)
        (.value :: token :: .key :: begun indent k .blockMappingStart tokens)) := by
  obtain ⟨c, c₁, rfl, passes, left, reaches⟩ := h.exists_atColon written inside parted
  have step : (atColon c c₁ indent outer tokens token).step = .ok _ :=
    step_atColon passes flat inside left parted short
  have column : c.column ≤ (c₁.advance 1).column :=
    Nat.le_trans (passes.flat flat).2 (column_le_advance 1)
  have colon : Reaches 1 (atColon c c₁ indent outer tokens token) _ :=
    .step step nofun (.refl _)
  exact ⟨c₁.advance 1, by rw [rest_advance, left]; rfl, column, reaches.trans colon⟩

theorem Arrives.key_fails (h : Arrives s (w ++ ':' :: rest) k true indent outer tokens)
    (written : Written none w token) (flat : ∀ ch ∈ w, endsLine ch = false) (inside : indent ≤ k)
    (parted : isParted rest = true) (long : maxKeyLength < w.length) : Fails s := by
  obtain ⟨c, c₁, rfl, passes, left, reaches⟩ := h.exists_atColon written inside parted
  exact reaches.fails (fails_atColon passes flat inside left parted long)

end Scan

end Recast.Yaml
