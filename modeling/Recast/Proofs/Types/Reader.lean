import Recast.Proofs.Json.Numeral
import Recast.Proofs.Json.Quote
import Recast.Proofs.Text.Blank
import Recast.Proofs.Types.Precedence
import Recast.TypeExpr.Render

/-! # Reading types

The text of a type is cut into tokens, and the tokens build the type with a stack of open
brackets. Brackets after a type bind tighter than `&`, and `&` binds tighter than `|`.
-/

namespace Recast.TypeText

open Text

/-! ## Tokens -/

inductive Token where
  | word (text : Text)
  | string (value : Text)
  | number (text : Text)
  | sign (c : Char)
  deriving DecidableEq, Repr

inductive Pending where
  | blank
  | sign (c : Char)
  | word (text : Text)
  | number (text : Text)
  /-- A string without its closing quote. -/
  | opened (raw : Text)
  | escaping (raw : Text)
  | quoted (raw : Text)
  deriving DecidableEq, Repr

def signs : Text := "()[]{}|&?:;,"

def start? (c : Char) : Option Pending :=
  if Json.isSpace c then some .blank
  else if c ∈ signs then some (.sign c)
  else if c = '"' then some (.opened [])
  else if Name.startsIdentifier c then some (.word [c])
  else if c.isDigit || c = '-' then some (.number [c])
  else none

def extend? : Pending → Char → Option Pending
  | .word text, c => if Name.inIdentifier c then some (.word (text ++ [c])) else none
  | .number text, c => if Json.isAtomic c then some (.number (text ++ [c])) else none
  | .opened raw, c =>
    if c = '"' then some (.quoted raw)
    else if c = '\\' then some (.escaping (raw ++ [c]))
    else some (.opened (raw ++ [c]))
  | .escaping raw, c => some (.opened (raw ++ [c]))
  | _, _ => none

def finish? : Pending → Option (List Token)
  | .blank => some []
  | .sign c => some [.sign c]
  | .word text => some [.word text]
  | .number text => if Json.isNumeral text then some [.number text] else none
  | .quoted raw =>
    match Json.readString 0 (raw ++ ['"']) with
    | .ok (value, []) => some [.string value]
    | _ => none
  | .opened _ | .escaping _ => none

/-- The tokens of a text that goes on after the beginning of one. A token takes as many
characters as it can. -/
def scan (p : Pending) : Text → Option (List Token)
  | [] => finish? p
  | c :: rest =>
    match extend? p c with
    | some p => scan p rest
    | none =>
      (finish? p).bind fun done => (start? c).bind fun p => (scan p rest).map (done ++ ·)

def tokens (t : Text) : Option (List Token) := scan .blank t

/-- White space and signs may follow any token. -/
def delimits (c : Char) : Bool := Json.isSpace c || decide (c ∈ signs)

def delimited : Text → Bool
  | [] => true
  | c :: _ => delimits c

/-! ## Types -/

/-- An open bracket: the type that it stands in and what has been read after it. -/
inductive Frame where
  | group (l : Level)
  | tuple (l : Level) (items : List TypeTree)
  | field (l : Level) (fields : List (Field TypeTree)) (key : Text) (optional : Bool)
  deriving Repr

/-- What has been read since the last open bracket. -/
inductive Place where
  | operand (l : Level)
  | after (r : Reading)
  /-- After the first of the two brackets that make an array type. -/
  | bracket (r : Reading)
  | key (l : Level) (fields : List (Field TypeTree))
  | colon (l : Level) (fields : List (Field TypeTree)) (key : Text) (optional : Bool)
  deriving Repr

structure State where
  place : Place
  frames : List Frame := []
  deriving Repr

/-- The words that are types of their own. -/
def keywords : List Text :=
  ["string", "number", "boolean", "null", "unknown", "true", "false"]

def ofWord (word : Text) : TypeTree :=
  if word ∈ keywords then .keyword word else .reference word

def begin? (l : Level) (frames : List Frame) : Token → Option State
  | .word word => some ⟨.after ⟨l, ofWord word⟩, frames⟩
  | .string value => some ⟨.after ⟨l, .literal (Json.quote value)⟩, frames⟩
  | .number text => some ⟨.after ⟨l, .literal text⟩, frames⟩
  | .sign '(' => some ⟨.operand {}, .group l :: frames⟩
  | .sign '[' => some ⟨.operand {}, .tuple l [] :: frames⟩
  | .sign '{' => some ⟨.key l [], frames⟩
  | .sign ']' =>
    match l, frames with
    | ⟨[], []⟩, .tuple l items :: frames => some ⟨.after ⟨l, .tuple items⟩, frames⟩
    | _, _ => none
  | .sign _ => none

/-- The sign after a type that ends the innermost bracket, or one item or field in it. -/
def leave? (type : TypeTree) : List Frame → Char → Option State
  | .group l :: frames, ')' => some ⟨.after ⟨l, type⟩, frames⟩
  | .tuple l items :: frames, ',' => some ⟨.operand {}, .tuple l (items ++ [type]) :: frames⟩
  | .tuple l items :: frames, ']' => some ⟨.after ⟨l, .tuple (items ++ [type])⟩, frames⟩
  | .field l fields key optional :: frames, c =>
    if c = ';' ∨ c = ',' then some ⟨.key l (fields ++ [⟨key, type, optional⟩]), frames⟩
    else if c = '}' then some ⟨.after ⟨l, .record (fields ++ [⟨key, type, optional⟩])⟩, frames⟩
    else none
  | _, _ => none

def goOn? (r : Reading) (frames : List Frame) : Token → Option State
  | .sign '|' => some ⟨.operand (r.push .or), frames⟩
  | .sign '&' => some ⟨.operand (r.push .and), frames⟩
  | .sign '[' => some ⟨.bracket r, frames⟩
  | .sign c => leave? r.close frames c
  | _ => none

def step : State → Token → Option State
  | ⟨.operand l, frames⟩, token => begin? l frames token
  | ⟨.after r, frames⟩, token => goOn? r frames token
  | ⟨.bracket r, frames⟩, .sign ']' => some ⟨.after ⟨r.toLevel, .array r.last⟩, frames⟩
  | ⟨.key l fields, frames⟩, .string key => some ⟨.colon l fields key false, frames⟩
  | ⟨.key l fields, frames⟩, .word key => some ⟨.colon l fields key false, frames⟩
  | ⟨.key l fields, frames⟩, .sign '}' => some ⟨.after ⟨l, .record fields⟩, frames⟩
  | ⟨.colon l fields key false, frames⟩, .sign '?' => some ⟨.colon l fields key true, frames⟩
  | ⟨.colon l fields key optional, frames⟩, .sign ':' =>
    some ⟨.operand {}, .field l fields key optional :: frames⟩
  | _, _ => none

def run (s : State) : List Token → Option State
  | [] => some s
  | token :: tokens => (step s token).bind (run · tokens)

def ended? : State → Option TypeTree
  | ⟨.after r, []⟩ => some r.close
  | _ => none

def runText (t : Text) (s : State) : Option State := (tokens t).bind (run s)

/-- The type that a text is read as. -/
def read (t : Text) : Option TypeTree := (runText t ⟨.operand {}, []⟩).bind ended?

/-! ## Token by token -/

section

variable {p : Pending} {t rest : Text} {s : State}

def Stops (p : Pending) (rest : Text) : Prop := ∀ c, rest.head? = some c → extend? p c = none

theorem scan_of_stops {done : List Token} (stops : Stops p rest) (finished : finish? p = some done) :
    scan p rest = (scan .blank rest).map (done ++ ·) := by
  cases rest with
  | nil =>
      rw [scan, scan, finished, finish?, Option.map_some, List.append_nil]
  | cons c rest =>
      have first : extend? p c = none := stops c rfl
      rw [scan, scan, first, finished]
      simp only [extend?, finish?, Option.bind_some, List.nil_append]
      cases start? c with
      | none => rfl
      | some p => simp

theorem runText_of_scan {token : Token} (same : tokens (t ++ rest) = scan p rest)
    (stops : Stops p rest) (finished : finish? p = some [token]) :
    runText (t ++ rest) s = (step s token).bind (runText rest) := by
  rw [runText, same, scan_of_stops stops finished]
  cases later : scan .blank rest with
  | none =>
      have fails : runText rest = fun _ => none := by
        funext s
        rw [runText, tokens, later, Option.bind_none]
      rw [fails, Option.map_none, Option.bind_none, Option.bind_fun_none]
  | some following =>
      have goes : runText rest = (run · following) := by
        funext s
        rw [runText, tokens, later, Option.bind_some]
      rw [goes, Option.map_some, Option.bind_some, List.singleton_append, run]

theorem scan_blank_cons {c : Char} (h : start? c = some p) :
    scan .blank (c :: rest) = scan p rest := by
  simp [scan, extend?, finish?, h]

theorem scan_extend {c : Char} {q : Pending} (h : extend? p c = some q) :
    scan p (c :: rest) = scan q rest := by
  rw [scan, h]

theorem runText_space {c : Char} (space : Json.isSpace c) : runText (c :: rest) s = runText rest s := by
  rw [runText, tokens, scan_blank_cons (by rw [start?, if_pos space])]
  rfl

theorem start?_sign : ∀ c ∈ signs, start? c = some (.sign c) := by decide

theorem runText_sign {c : Char} (sign : c ∈ signs) :
    runText (c :: rest) s = (step s (.sign c)).bind (runText rest) :=
  runText_of_scan (t := [c]) (scan_blank_cons (start?_sign c sign)) (fun _ _ => rfl) rfl

/-! ### Words -/

def IsWord (t : Text) : Prop := ∃ c rest, t = c :: rest ∧ Name.startsIdentifier c ∧ rest.all Name.inIdentifier

theorem apart_of_delimits {c : Char} (h : delimits c) :
    Name.inIdentifier c = false ∧ Json.isAtomic c = false := by
  simp only [delimits, Bool.or_eq_true, decide_eq_true_eq] at h
  rcases h with space | sign
  · simp only [Json.isSpace, Bool.or_eq_true, beq_iff_eq] at space
    rcases space with ((rfl | rfl) | rfl) | rfl <;> exact ⟨rfl, rfl⟩
  · exact (by decide : ∀ c ∈ signs, Name.inIdentifier c = false ∧ Json.isAtomic c = false) c sign

theorem stops_word (h : delimited rest) (text : Text) : Stops (.word text) rest := by
  intro c first
  obtain ⟨tail, rfl⟩ := List.head?_eq_some_iff.mp first
  simp [extend?, (apart_of_delimits h).1]

theorem stops_number (h : delimited rest) (text : Text) : Stops (.number text) rest := by
  intro c first
  obtain ⟨tail, rfl⟩ := List.head?_eq_some_iff.mp first
  simp [extend?, (apart_of_delimits h).2]

theorem scan_word {more : Text} (all : more.all Name.inIdentifier) (text : Text) :
    scan (.word text) (more ++ rest) = scan (.word (text ++ more)) rest := by
  induction more generalizing text with
  | nil => rw [List.nil_append, List.append_nil]
  | cons c more ih =>
      rw [List.all_cons, Bool.and_eq_true] at all
      rw [List.cons_append, scan_extend (by rw [extend?, if_pos all.1]), ih all.2,
        List.append_assoc, List.singleton_append]

theorem scan_number {more : Text} (all : ∀ c ∈ more, Json.isAtomic c) (text : Text) :
    scan (.number text) (more ++ rest) = scan (.number (text ++ more)) rest := by
  induction more generalizing text with
  | nil => rw [List.nil_append, List.append_nil]
  | cons c more ih =>
      rw [List.forall_mem_cons] at all
      rw [List.cons_append, scan_extend (by rw [extend?, if_pos all.1]), ih all.2,
        List.append_assoc, List.singleton_append]

theorem not_delimits_of_inIdentifier {c : Char} (h : Name.inIdentifier c) : delimits c = false := by
  cases found : delimits c with
  | false => rfl
  | true => simp [(apart_of_delimits found).1] at h

theorem not_delimits_of_isAtomic {c : Char} (h : Json.isAtomic c) : delimits c = false := by
  cases found : delimits c with
  | false => rfl
  | true => simp [(apart_of_delimits found).2] at h

theorem start?_word {c : Char} (h : Name.startsIdentifier c) : start? c = some (.word [c]) := by
  have apart := not_delimits_of_inIdentifier (c := c) (by simp [Name.inIdentifier, h])
  simp only [delimits, Bool.or_eq_false_iff, decide_eq_false_iff_not] at apart
  have quote : c ≠ '"' := by
    rintro rfl
    exact absurd h (by decide)
  rw [start?, if_neg (by simp [apart.1]), if_neg apart.2, if_neg quote, if_pos h]

theorem runText_word (word : IsWord t) (h : delimited rest) :
    runText (t ++ rest) s = (step s (.word t)).bind (runText rest) := by
  obtain ⟨c, more, rfl, first, all⟩ := word
  refine runText_of_scan ?_ (stops_word h _) rfl
  rw [tokens, List.cons_append, scan_blank_cons (start?_word first), scan_word all,
    List.singleton_append]

/-! ### Numbers and strings -/

theorem start?_number {c : Char} (h : c.isDigit ∨ c = '-') : start? c = some (.number [c]) := by
  have atomic : Json.isAtomic c := by
    rcases h with digit | rfl
    · exact Json.isAtomic_of_isDigit digit
    · rfl
  have apart := not_delimits_of_isAtomic atomic
  simp only [delimits, Bool.or_eq_false_iff, decide_eq_false_iff_not] at apart
  have quote : c ≠ '"' := by
    rintro rfl
    exact absurd atomic (by decide)
  have word : Name.startsIdentifier c = false := by
    rcases h with digit | rfl
    · have letter : c.isAlpha = false := by
        have bounds : 48 ≤ c.toNat ∧ c.toNat < 58 := by
          simp only [Char.isDigit, Bool.and_eq_true, decide_eq_true_eq,
            UInt32.le_iff_toNat_le] at digit
          exact ⟨digit.1, Nat.lt_succ_of_le digit.2⟩
        have letters : 48 ≤ c.toNat → c.isAlpha = false := of_toNat_lt c bounds.2 (by decide)
        exact letters bounds.1
      have underscore : c ≠ '_' := by rintro rfl; exact absurd digit (by decide)
      have dollar : c ≠ '$' := by rintro rfl; exact absurd digit (by decide)
      simp [Name.startsIdentifier, letter, underscore, dollar]
    · rfl
  rw [start?, if_neg (by simp [apart.1]), if_neg apart.2, if_neg quote, if_neg (by simp [word]),
    if_pos (by simpa using h)]

theorem runText_number (numeral : Json.Numeral t) (h : delimited rest) :
    runText (t ++ rest) s = (step s (.number t)).bind (runText rest) := by
  have known := numeral.isNumeral
  have all := numeral.atomic
  obtain ⟨c, more, rfl, first⟩ := numeral.first
  refine runText_of_scan ?_ (stops_number h _) (by rw [finish?, if_pos known])
  rw [tokens, List.cons_append, scan_blank_cons (start?_number first),
    scan_number (fun d member => all d (List.mem_cons_of_mem _ member)), List.singleton_append]

theorem scan_plain {c : Char} (quote : c ≠ '"') (escape : c ≠ '\\') (raw : Text) :
    scan (.opened raw) (c :: rest) = scan (.opened (raw ++ [c])) rest :=
  scan_extend (by rw [extend?, if_neg quote, if_neg escape])

theorem plain_of_hexValue? {c : Char} {n : Nat} (h : Json.hexValue? c = some n) :
    c ≠ '"' ∧ c ≠ '\\' := by
  constructor <;> rintro rfl <;> simp [Json.hexValue?] at h

theorem scan_spells {raw : Text} {pieces : List Json.Piece} (h : Json.Spells raw pieces)
    (before : Text) : scan (.opened before) (raw ++ rest) = scan (.opened (before ++ raw)) rest := by
  induction h generalizing before with
  | nil => rw [List.nil_append, List.append_nil]
  | plain quote escape _ _ ih =>
      rw [List.cons_append, scan_plain quote escape, ih, List.append_assoc, List.singleton_append]
  | escape _ _ ih =>
      rw [List.cons_append, List.cons_append, scan_extend (q := .escaping (before ++ ['\\'])) rfl,
        scan_extend rfl, ih]
      simp
  | @code a b c d n raw pieces known _ ih =>
      simp only [Json.hexValue4?, Option.pure_def, Option.bind_eq_bind, Option.bind_eq_some_iff] at known
      obtain ⟨_, first, _, second, _, third, _, fourth, -⟩ := known
      obtain ⟨q₁, e₁⟩ := plain_of_hexValue? first
      obtain ⟨q₂, e₂⟩ := plain_of_hexValue? second
      obtain ⟨q₃, e₃⟩ := plain_of_hexValue? third
      obtain ⟨q₄, e₄⟩ := plain_of_hexValue? fourth
      simp only [List.cons_append]
      rw [scan_extend (q := .escaping (before ++ ['\\'])) rfl, scan_extend rfl, scan_plain q₁ e₁,
        scan_plain q₂ e₂, scan_plain q₃ e₃, scan_plain q₄ e₄, ih]
      simp

theorem runText_string (value : Text) :
    runText (Json.quote value ++ rest) s = (step s (.string value)).bind (runText rest) := by
  obtain ⟨pieces, spelled, same⟩ := Json.exists_spells value
  refine runText_of_scan (p := .quoted (value.flatMap Json.escapeChar)) ?_ (fun _ _ => rfl) ?_
  · rw [Json.quote, tokens, List.cons_append, List.cons_append, scan_blank_cons (p := .opened []) rfl,
      List.append_assoc, scan_spells spelled, List.nil_append, List.singleton_append,
      scan_extend (q := .quoted _) rfl]
  · rw [finish?, Json.readString_of_spells spelled, same]

end

/-! ### Signs in their places -/

section

variable {l : Level} {r : Reading} {items : List TypeTree} {fields : List (Field TypeTree)}
  {key rest : Text} {optional : Bool} {frames : List Frame}

def operatorSign : Operator → Char
  | .or => '|'
  | .and => '&'

theorem runText_operator (op : Operator) :
    runText (operatorSign op :: rest) ⟨.after r, frames⟩ = runText rest ⟨.operand (r.push op), frames⟩ := by
  cases op <;> exact runText_sign (by decide)

theorem runText_openGroup :
    runText ('(' :: rest) ⟨.operand l, frames⟩ = runText rest ⟨.operand {}, .group l :: frames⟩ :=
  runText_sign (by decide)

theorem runText_closeGroup :
    runText (')' :: rest) ⟨.after r, .group l :: frames⟩ =
      runText rest ⟨.after ⟨l, r.close⟩, frames⟩ :=
  runText_sign (by decide)

theorem runText_brackets :
    runText ('[' :: ']' :: rest) ⟨.after r, frames⟩ =
      runText rest ⟨.after ⟨r.toLevel, .array r.last⟩, frames⟩ :=
  (runText_sign (by decide)).trans (runText_sign (by decide))

theorem runText_openTuple :
    runText ('[' :: rest) ⟨.operand l, frames⟩ = runText rest ⟨.operand {}, .tuple l [] :: frames⟩ :=
  runText_sign (by decide)

theorem runText_emptyTuple :
    runText ('[' :: ']' :: rest) ⟨.operand l, frames⟩ =
      runText rest ⟨.after ⟨l, .tuple []⟩, frames⟩ :=
  (runText_sign (by decide)).trans (runText_sign (by decide))

theorem runText_nextItem :
    runText (',' :: rest) ⟨.after r, .tuple l items :: frames⟩ =
      runText rest ⟨.operand {}, .tuple l (items ++ [r.close]) :: frames⟩ :=
  runText_sign (by decide)

theorem runText_closeTuple :
    runText (']' :: rest) ⟨.after r, .tuple l items :: frames⟩ =
      runText rest ⟨.after ⟨l, .tuple (items ++ [r.close])⟩, frames⟩ :=
  runText_sign (by decide)

theorem runText_openRecord :
    runText ('{' :: rest) ⟨.operand l, frames⟩ = runText rest ⟨.key l [], frames⟩ :=
  runText_sign (by decide)

theorem runText_closeRecord :
    runText ('}' :: rest) ⟨.key l fields, frames⟩ =
      runText rest ⟨.after ⟨l, .record fields⟩, frames⟩ :=
  runText_sign (by decide)

theorem runText_key :
    runText (Json.quote key ++ rest) ⟨.key l fields, frames⟩ =
      runText rest ⟨.colon l fields key false, frames⟩ :=
  runText_string key

theorem runText_optional :
    runText (TypeExpr.optionalMark optional ++ rest) ⟨.colon l fields key false, frames⟩ =
      runText rest ⟨.colon l fields key optional, frames⟩ := by
  cases optional with
  | false => rfl
  | true => exact runText_sign (by decide)

theorem runText_colon :
    runText (':' :: rest) ⟨.colon l fields key optional, frames⟩ =
      runText rest ⟨.operand {}, .field l fields key optional :: frames⟩ := by
  cases optional <;> exact runText_sign (by decide)

theorem runText_nextField {c : Char} (separator : c = ';' ∨ c = ',') :
    runText (c :: rest) ⟨.after r, .field l fields key optional :: frames⟩ =
      runText rest ⟨.key l (fields ++ [⟨key, r.close, optional⟩]), frames⟩ := by
  rcases separator with rfl | rfl <;> exact runText_sign (by decide)

theorem runText_lastField :
    runText ('}' :: rest) ⟨.after r, .field l fields key optional :: frames⟩ =
      runText rest ⟨.after ⟨l, .record (fields ++ [⟨key, r.close, optional⟩])⟩, frames⟩ :=
  runText_sign (by decide)

end

end Recast.TypeText
