import Mathlib.Data.List.TakeWhile
import Recast.Json.Reader
import Recast.Proofs.Outcome
import Recast.Proofs.Text.Cut

/-! # Tokens of JSON

The spellings that reading takes as one string or as one word or number. A token reads
the same wherever it stands, as long as what follows it may follow a value.
-/

namespace Recast.Json

open Text

/-! ## Strings -/

/-- `raw` between quotes spells the pieces. -/
inductive Spells : Text → List Piece → Prop
  | nil : Spells [] []
  | plain {c raw pieces} (quote : c ≠ '"') (escape : c ≠ '\\') (visible : 0x20 ≤ c.toNat)
      (rest : Spells raw pieces) : Spells (c :: raw) (.plain c :: pieces)
  | escape {e c raw pieces} (known : simpleEscape? e = some c) (rest : Spells raw pieces) :
      Spells ('\\' :: e :: raw) (.plain c :: pieces)
  | code {a b c d n raw pieces} (known : hexValue4? a b c d = some n) (rest : Spells raw pieces) :
      Spells ('\\' :: 'u' :: a :: b :: c :: d :: raw) (.code n :: pieces)

theorem Spells.tail_plain {c : Char} {raw : Text} {pieces : List Piece} (h : Spells (c :: raw) pieces)
    (escape : c ≠ '\\') : ∃ rest, pieces = .plain c :: rest ∧ Spells raw rest := by
  cases h with
  | plain _ _ _ rest => exact ⟨_, rfl, rest⟩
  | escape => exact absurd rfl escape
  | code => exact absurd rfl escape

theorem Spells.tail_escape {e c : Char} {raw : Text} {pieces : List Piece}
    (h : Spells ('\\' :: e :: raw) pieces) (known : simpleEscape? e = some c) :
    ∃ rest, pieces = .plain c :: rest ∧ Spells raw rest := by
  cases h with
  | plain _ escape => exact absurd rfl escape
  | escape known' rest =>
      obtain rfl := Option.some.inj (known.symm.trans known')
      exact ⟨_, rfl, rest⟩
  | code => simp [simpleEscape?] at known

theorem Spells.tail_code {a b c d : Char} {n : Nat} {raw : Text} {pieces : List Piece}
    (h : Spells ('\\' :: 'u' :: a :: b :: c :: d :: raw) pieces)
    (known : hexValue4? a b c d = some n) : ∃ rest, pieces = .code n :: rest ∧ Spells raw rest := by
  cases h with
  | plain _ escape => exact absurd rfl escape
  | escape known' => simp [simpleEscape?] at known'
  | code known' rest =>
      obtain rfl := Option.some.inj (known.symm.trans known')
      exact ⟨_, rfl, rest⟩

theorem readPieces_of_spells {raw : Text} {pieces : List Piece} (h : Spells raw pieces)
    (start : Nat) (after : Text) : readPieces start (raw ++ '"' :: after) = .ok (pieces, after) := by
  induction h with
  | nil => rfl
  | plain quote escape visible rest ih =>
      simp only [List.cons_append]
      rw [readPieces.eq_7 _ _ _ quote (fun same => absurd same escape)
        (fun _ _ _ _ _ same => absurd same escape) (fun _ same => absurd same escape)
        (fun _ _ same => absurd same escape), if_neg (Nat.not_lt.mpr visible), ih]
      rfl
  | @escape e c raw pieces known rest ih =>
      have other : e ≠ 'u' := by
        rintro rfl
        simp [simpleEscape?] at known
      simp only [List.cons_append]
      rw [readPieces.eq_6 _ _ _ (fun _ _ _ _ _ same => absurd same other)
        (fun same => absurd same other), known]
      simp only [ih]
      rfl
  | @code a b c d n raw pieces known rest ih =>
      have more : (raw ++ '"' :: after).isEmpty = false := by cases raw <;> rfl
      simp only [List.cons_append]
      rw [readPieces.eq_4, known, more]
      simp only [ih]
      rfl

theorem spells_of_readPieces {start : Nat} {t after : Text} {pieces : List Piece}
    (h : readPieces start t = .ok (pieces, after)) :
    ∃ raw, Spells raw pieces ∧ t = raw ++ '"' :: after := by
  fun_induction readPieces start t generalizing pieces after with
  | case2 rest =>
      simp only [Except.ok.injEq, Prod.mk.injEq] at h
      obtain ⟨rfl, rfl⟩ := h
      exact ⟨[], .nil, rfl⟩
  | case4 a b c d rest n more known ih =>
      simp only [bind_eq_ok, Prod.exists, pure_eq_ok, Except.ok.injEq, Prod.mk.injEq] at h
      obtain ⟨pieces, after, read, rfl, rfl⟩ := h
      obtain ⟨raw, spelled, rfl⟩ := ih read
      exact ⟨_, .code known spelled, rfl⟩
  | case7 e rest _ _ c known ih =>
      simp only [bind_eq_ok, Prod.exists, pure_eq_ok, Except.ok.injEq, Prod.mk.injEq] at h
      obtain ⟨pieces, after, read, rfl, rfl⟩ := h
      obtain ⟨raw, spelled, rfl⟩ := ih read
      exact ⟨_, .escape known spelled, rfl⟩
  | case10 c rest quote lone _ _ escape visible ih =>
      simp only [bind_eq_ok, Prod.exists, pure_eq_ok, Except.ok.injEq, Prod.mk.injEq] at h
      obtain ⟨pieces, after, read, rfl, rfl⟩ := h
      obtain ⟨raw, spelled, rfl⟩ := ih read
      have plain : c ≠ '\\' := by
        intro same
        cases raw with
        | nil => exact escape _ _ same rfl
        | cons d raw => exact escape _ _ same rfl
      exact ⟨_, .plain quote plain (Nat.not_lt.mp visible) spelled, rfl⟩
  | _ => simp at h

/-- The inside of a string between quotes. -/
structure Quoted where
  raw : Text
  spelled : ∃ pieces, Spells raw pieces

/-- The string that it spells. -/
def Quoted.value (q : Quoted) : Text :=
  match readString 0 (q.raw ++ ['"']) with
  | .ok (s, _) => s
  | .error _ => []

theorem readString_of_spells {raw : Text} {pieces : List Piece} (h : Spells raw pieces)
    (start : Nat) (after : Text) :
    readString start (raw ++ '"' :: after) = .ok (joinPieces none pieces, after) := by
  rw [readString, readPieces_of_spells h]
  rfl

theorem Quoted.value_eq {q : Quoted} {pieces : List Piece} (h : Spells q.raw pieces) :
    q.value = joinPieces none pieces := by
  rw [Quoted.value, readString_of_spells h 0 []]

theorem Quoted.read (q : Quoted) (start : Nat) (after : Text) :
    readString start (q.raw ++ '"' :: after) = .ok (q.value, after) := by
  obtain ⟨pieces, h⟩ := q.spelled
  rw [readString_of_spells h, q.value_eq h]

theorem exists_quoted {start : Nat} {t s after : Text} (h : readString start t = .ok (s, after)) :
    ∃ q : Quoted, t = q.raw ++ '"' :: after ∧ q.value = s := by
  simp only [readString, bind_eq_ok, Prod.exists, pure_eq_ok, Except.ok.injEq, Prod.mk.injEq] at h
  obtain ⟨pieces, after, read, rfl, rfl⟩ := h
  obtain ⟨raw, spelled, rfl⟩ := spells_of_readPieces read
  exact ⟨⟨raw, pieces, spelled⟩, rfl, Quoted.value_eq spelled⟩

/-! ## Numbers -/

/-- Nothing follows, or white space, a comma or a closing bracket does. -/
def Ends (rest : Text) : Prop :=
  ∀ c, rest.head? = some c → isSpace c = true ∨ c = ',' ∨ c = ']' ∨ c = '}'

/-- A character of a word or a number. -/
def isAtomic (c : Char) : Bool := c.isAlphanum || c == '-' || c == '+' || c == '.'

/-- What follows is no digit. -/
def NoDigit (rest : Text) : Prop := ∀ c, rest.head? = some c → c.isDigit = false

/-- What follows is neither a digit nor a point. -/
def Stops (rest : Text) : Prop := NoDigit rest ∧ rest.head? ≠ some '.'

theorem Ends.apart {rest : Text} (h : Ends rest) {c : Char} (first : rest.head? = some c) :
    isAtomic c = false := by
  rcases h c first with space | rfl | rfl | rfl
  · simp only [isSpace, Bool.or_eq_true, beq_iff_eq] at space
    rcases space with ((rfl | rfl) | rfl) | rfl <;> rfl
  · rfl
  · rfl
  · rfl

theorem Ends.stops {rest : Text} (h : Ends rest) : Stops rest := by
  constructor
  · intro c first
    have apart := h.apart first
    simp only [isAtomic, Char.isAlphanum, Bool.or_eq_false_iff] at apart
    exact apart.1.1.1.2
  · intro first
    exact absurd (h.apart first) (by decide)

theorem isAtomic_of_isDigit {c : Char} (digit : c.isDigit = true) : isAtomic c = true := by
  simp [isAtomic, Char.isAlphanum, digit]

theorem takeWhile_digits {digits rest : Text} (all : ∀ c ∈ digits, c.isDigit) (stop : NoDigit rest) :
    (digits ++ rest).takeWhile Char.isDigit = digits :=
  takeWhile_run all stop

theorem dropWhile_digits {digits rest : Text} (all : ∀ c ∈ digits, c.isDigit) (stop : NoDigit rest) :
    (digits ++ rest).dropWhile Char.isDigit = rest :=
  dropWhile_run all stop

theorem readWhole_eq_some {t whole rest : Text} (h : readWhole t = some (whole, rest)) :
    t = whole ++ rest ∧ whole ≠ [] ∧ (∀ c ∈ whole, c.isDigit) ∧
      ∀ rest', NoDigit rest' → readWhole (whole ++ rest') = some (whole, rest') := by
  unfold readWhole at h
  split at h
  · simp only [Option.some.injEq, Prod.mk.injEq] at h
    obtain ⟨rfl, rfl⟩ := h
    exact ⟨rfl, by simp, by decide, fun _ _ => rfl⟩
  · rename_i c tail zero
    simp only [Option.ite_none_right_eq_some, Option.some.injEq, Prod.mk.injEq] at h
    obtain ⟨digit, rfl, rfl⟩ := h
    have all : ∀ d ∈ (c :: tail).takeWhile Char.isDigit, d.isDigit :=
      fun d member => List.mem_takeWhile_imp member
    have start : (c :: tail).takeWhile Char.isDigit = c :: tail.takeWhile Char.isDigit :=
      List.takeWhile_cons_of_pos digit
    refine ⟨List.takeWhile_append_dropWhile.symm, by simp [start], all, fun rest' stop => ?_⟩
    have taken := takeWhile_digits all stop
    have dropped := dropWhile_digits all stop
    rw [start] at taken dropped ⊢
    rw [List.cons_append] at taken dropped ⊢
    rw [readWhole.eq_2 _ _ zero, if_pos digit, spanWhile, taken, dropped]
  · simp at h

/-- What is left of a text when `read?` takes its beginning or nothing. -/
def leftBy {α : Type} (read? : Text → Option (α × Text)) (t : Text) : Text :=
  ((read? t).map (·.2)).getD t

theorem readFraction_of_stops {rest : Text} (stop : Stops rest) : readFraction rest = none := by
  cases rest with
  | nil => rfl
  | cons c rest =>
      have other : c ≠ '.' := fun same => stop.2 (congrArg some same)
      simp [readFraction, other]

theorem readFraction_digits {digits rest : Text} (some : digits ≠ []) (all : ∀ c ∈ digits, c.isDigit)
    (stop : NoDigit rest) : readFraction ('.' :: (digits ++ rest)) = Option.some (digits, rest) := by
  simp [readFraction, takeWhile_digits all stop, dropWhile_digits all stop, some]

theorem exists_fraction (t : Text) :
    ∃ text, t = text ++ leftBy readFraction t ∧ (∀ c ∈ text, isAtomic c) ∧
      (∀ rest, NoDigit rest → NoDigit (text ++ rest)) ∧
      ∀ rest, Stops rest → (readFraction (text ++ rest)).map (·.1) = (readFraction t).map (·.1) ∧
        leftBy readFraction (text ++ rest) = rest := by
  cases found : readFraction t with
  | none =>
      refine ⟨[], by simp [leftBy, found], by simp, fun _ => id, fun rest stop => ?_⟩
      simp [leftBy, readFraction_of_stops stop]
  | some found' =>
      obtain ⟨digits, after⟩ := found'
      have h := found
      unfold readFraction at h
      split at h
      · rename_i tail
        simp only [Option.ite_none_left_eq_some, Option.some.injEq, Prod.mk.injEq] at h
        obtain ⟨some, rfl, rfl⟩ := h
        have all : ∀ c ∈ tail.takeWhile Char.isDigit, c.isDigit :=
          fun c member => List.mem_takeWhile_imp member
        refine ⟨'.' :: tail.takeWhile Char.isDigit, by simp [leftBy, found], ?_, ?_, ?_⟩
        · exact List.forall_mem_cons.mpr ⟨rfl, fun c member => isAtomic_of_isDigit (all c member)⟩
        · intro rest stop c first
          obtain rfl : '.' = c := by simpa using first
          decide
        · intro rest stop
          have read := readFraction_digits (by simpa using some) all stop.1
          simp [leftBy, read]
      · simp at h

theorem readExponent_append {mark : Char} (marked : mark = 'e' ∨ mark = 'E') {sign digits : Text}
    (known : sign = [] ∨ sign = ['-'] ∨ sign = ['+']) (some : digits ≠ [])
    (all : ∀ c ∈ digits, c.isDigit) {rest : Text} (stop : NoDigit rest) :
    readExponent (mark :: (sign ++ (digits ++ rest))) =
      Option.some (if sign = ['-'] then -(Nat.ofDigitChars 10 digits 0 : Int)
        else Nat.ofDigitChars 10 digits 0, rest) := by
  have taken := takeWhile_digits all stop
  have dropped := dropWhile_digits all stop
  have marked' : (decide (mark = 'e') || decide (mark = 'E')) = true := by simpa using marked
  rcases known with rfl | rfl | rfl
  · cases digits with
    | nil => exact absurd rfl some
    | cons d digits =>
        have digit : d.isDigit = true := all d List.mem_cons_self
        have minus : d ≠ '-' := by rintro rfl; exact absurd digit (by decide)
        have plus : d ≠ '+' := by rintro rfl; exact absurd digit (by decide)
        rw [List.cons_append] at taken dropped
        simp [readExponent, marked', minus, plus, taken, dropped]
  · simp [readExponent, marked', taken, dropped, some]
  · simp [readExponent, marked', taken, dropped, some]

theorem readExponent_eq_some {t rest : Text} {x : Int} (h : readExponent t = some (x, rest)) :
    ∃ mark sign digits, (mark = 'e' ∨ mark = 'E') ∧ (sign = [] ∨ sign = ['-'] ∨ sign = ['+']) ∧
      digits ≠ [] ∧ (∀ c ∈ digits, c.isDigit) ∧ t = mark :: (sign ++ (digits ++ rest)) ∧
        x = if sign = ['-'] then -(Nat.ofDigitChars 10 digits 0 : Int)
          else Nat.ofDigitChars 10 digits 0 := by
  cases t with
  | nil => simp [readExponent] at h
  | cons mark tail =>
      have marked : mark = 'e' ∨ mark = 'E' := by
        by_contra other
        simp [readExponent, other] at h
      have marked' : (decide (mark = 'e') || decide (mark = 'E')) = true := by simpa using marked
      have all (body : Text) : ∀ c ∈ body.takeWhile Char.isDigit, c.isDigit :=
        fun c member => List.mem_takeWhile_imp member
      rw [readExponent.eq_def] at h
      simp only [marked', if_true] at h
      -- the three ways that the sign is read
      split at h <;> simp only [Option.ite_none_left_eq_some, Option.some.injEq, Prod.mk.injEq,
        List.isEmpty_iff, if_true, Bool.false_eq_true, if_false] at h
      · obtain ⟨some, rfl, rfl⟩ := h
        exact ⟨mark, ['-'], _, marked, by simp, some, all _, by simp, by simp⟩
      · obtain ⟨some, rfl, rfl⟩ := h
        exact ⟨mark, ['+'], _, marked, by simp, some, all _, by simp, by simp⟩
      · obtain ⟨some, rfl, rfl⟩ := h
        exact ⟨mark, [], _, marked, by simp, some, all _, by simp, by simp⟩

theorem exists_exponent (t : Text) :
    ∃ text, t = text ++ leftBy readExponent t ∧ (∀ c ∈ text, isAtomic c) ∧
      (∀ rest, Ends rest → Stops (text ++ rest)) ∧
      ∀ rest, Ends rest → (readExponent (text ++ rest)).map (·.1) = (readExponent t).map (·.1) ∧
        leftBy readExponent (text ++ rest) = rest := by
  cases found : readExponent t with
  | none =>
      refine ⟨[], by simp [leftBy, found], by simp, fun rest ends => ends.stops,
        fun rest ends => ?_⟩
      have none : readExponent rest = none := by
        cases rest with
        | nil => rfl
        | cons c rest =>
            have apart := ends.apart (c := c) rfl
            have other : ¬ (c = 'e' ∨ c = 'E') := by
              rintro (rfl | rfl) <;> exact absurd apart (by decide)
            simp [readExponent, other]
      simp [leftBy, none]
  | some found' =>
      obtain ⟨x, after⟩ := found'
      obtain ⟨mark, sign, digits, marked, known, some, all, rfl, rfl⟩ := readExponent_eq_some found
      refine ⟨mark :: (sign ++ digits), by simp [leftBy, found], ?_, ?_, ?_⟩
      · have first : isAtomic mark = true := by rcases marked with rfl | rfl <;> rfl
        have second : ∀ c ∈ sign, isAtomic c := by rcases known with rfl | rfl | rfl <;> decide
        exact List.forall_mem_cons.mpr ⟨first, List.forall_mem_append.mpr
          ⟨second, fun c member => isAtomic_of_isDigit (all c member)⟩⟩
      · intro rest ends
        refine ⟨fun c first => ?_, ?_⟩
        · obtain rfl : mark = c := by simpa using first
          rcases marked with rfl | rfl <;> decide
        · rcases marked with rfl | rfl <;> simp
      · intro rest ends
        have read := readExponent_append marked known some all ends.stops.1
        simp [leftBy, read]

/-- The number with these parts. -/
def numeral (negative : Bool) (whole : Text) (fraction? : Option Text) (exponent? : Option Int) :
    Except Stop Json :=
  match fraction?, exponent? with
  | none, none =>
    if maxDigits < whole.length then .error (.tooManyDigits whole.length)
    else
      let magnitude : Int := Nat.ofDigitChars 10 whole 0
      .ok (.int (if negative then -magnitude else magnitude))
  | _, _ =>
    let fraction := fraction?.getD []
    let digits := Nat.ofDigitChars 10 (whole ++ fraction) 0
    .ok (.float (.ofDecimal negative digits (exponent?.getD 0 - fraction.length)))

/-- The sign of a number. -/
def numberSign (negative : Bool) : Text := if negative then ['-'] else []

theorem exists_numberSign (t : Text) : ∃ negative body,
    t = numberSign negative ++ body ∧ (negative = false → body.head? ≠ some '-') := by
  by_cases minus : t.head? = some '-'
  · obtain ⟨body, rfl⟩ := List.head?_eq_some_iff.mp minus
    exact ⟨true, body, rfl, by simp⟩
  · exact ⟨false, t, rfl, fun _ => minus⟩

section

variable {negative : Bool} {body : Text}

/-- A number is read part by part. -/
theorem readNumber_of_whole (plain : negative = false → body.head? ≠ some '-') {whole rest : Text}
    (h : readWhole body = some (whole, rest)) :
    readNumber (numberSign negative ++ body) =
      (numeral negative whole ((readFraction rest).map (·.1))
        ((readExponent (leftBy readFraction rest)).map (·.1))).map
          (·, leftBy readExponent (leftBy readFraction rest)) := by
  cases negative with
  | true =>
      simp only [numberSign, if_true, List.singleton_append, readNumber, h, leftBy]
      cases readFraction rest <;> cases readExponent _ <;>
        simp only [numeral, Except.map, Option.map_none, Option.map_some, Option.getD_none,
          Option.getD_some]
      split <;> rfl
  | false =>
      have other : ∀ tail, body = '-' :: tail → False := by
        rintro tail rfl
        exact plain rfl rfl
      simp only [numberSign, Bool.false_eq_true, if_false, List.nil_append]
      rw [readNumber.eq_2 _ other]
      simp only [h, leftBy]
      cases readFraction rest <;> cases readExponent _ <;>
        simp only [numeral, Except.map, Option.map_none, Option.map_some, Option.getD_none,
          Option.getD_some]
      split <;> rfl

theorem readNumber_of_no_whole (plain : negative = false → body.head? ≠ some '-')
    (h : readWhole body = none) :
    readNumber (numberSign negative ++ body) =
      .error (.fault .expectingValue (numberSign negative ++ body).length) := by
  cases negative with
  | true => simp [numberSign, readNumber, h]
  | false =>
      have other : ∀ tail, body = '-' :: tail → False := by
        rintro tail rfl
        exact plain rfl rfl
      simp only [numberSign, Bool.false_eq_true, if_false, List.nil_append]
      rw [readNumber.eq_2 _ other, h]

end

/-- A number that is read has a whole part, and then what is read as its fraction and exponent. -/
theorem readNumber_eq_ok {t rest : Text} {v : Json} (h : readNumber t = .ok (v, rest)) :
    ∃ negative whole after, t = numberSign negative ++ (whole ++ after) ∧
      readWhole (whole ++ after) = some (whole, after) ∧
      numeral negative whole ((readFraction after).map (·.1))
        ((readExponent (leftBy readFraction after)).map (·.1)) = .ok v ∧
      rest = leftBy readExponent (leftBy readFraction after) := by
  obtain ⟨negative, body, rfl, plain⟩ := exists_numberSign t
  cases found : readWhole body with
  | none =>
      rw [readNumber_of_no_whole plain found] at h
      cases h
  | some parts =>
      obtain ⟨whole, after⟩ := parts
      rw [readNumber_of_whole plain found] at h
      obtain ⟨w, value, same⟩ := map_eq_ok.mp h
      obtain ⟨rfl, rfl⟩ := Prod.mk.inj same
      obtain ⟨rfl, -⟩ := readWhole_eq_some found
      exact ⟨negative, whole, after, rfl, found, value, rfl⟩

theorem exists_digit_head {whole : Text} (some : whole ≠ []) (all : ∀ c ∈ whole, c.isDigit)
    (more : Text) : ∃ c, (whole ++ more).head? = Option.some c ∧ c.isDigit := by
  cases whole with
  | nil => exact absurd rfl some
  | cons c whole => exact ⟨c, rfl, all c List.mem_cons_self⟩

theorem head_ne_minus {text : Text} (begins : ∃ c, text.head? = some c ∧ c.isDigit) :
    text.head? ≠ some '-' := by
  obtain ⟨c, first, digit⟩ := begins
  rw [first]
  rintro ⟨⟩
  exact absurd digit (by decide)

/-- A number that is read once is read wherever a value may end after it. -/
theorem exists_number {t rest : Text} {v : Json} (h : readNumber t = .ok (v, rest)) :
    ∃ negative text, t = numberSign negative ++ text ++ rest ∧
      (∃ c, text.head? = some c ∧ c.isDigit) ∧ (∀ c ∈ text, isAtomic c) ∧
        ∀ rest', Ends rest' → readNumber (numberSign negative ++ text ++ rest') = .ok (v, rest') := by
  obtain ⟨negative, whole, after, rfl, found, value, rfl⟩ := readNumber_eq_ok h
  obtain ⟨-, some, all, wholeAgain⟩ := readWhole_eq_some found
  obtain ⟨fraction, spelled₁, atomic₁, noDigit, fractionAgain⟩ := exists_fraction after
  obtain ⟨exponent, spelled₂, atomic₂, stops, exponentAgain⟩ :=
    exists_exponent (leftBy readFraction after)
  have begins := exists_digit_head some all
  refine ⟨negative, whole ++ (fraction ++ exponent), ?_, begins _, ?_, fun rest' ends => ?_⟩
  · simp only [List.append_assoc, ← spelled₂, ← spelled₁]
  · refine List.forall_mem_append.mpr ⟨fun d member => isAtomic_of_isDigit (all d member), ?_⟩
    exact List.forall_mem_append.mpr ⟨atomic₁, atomic₂⟩
  · obtain ⟨sameFraction, leftFraction⟩ := fractionAgain (exponent ++ rest') (stops rest' ends)
    obtain ⟨sameExponent, leftExponent⟩ := exponentAgain rest' ends
    have again := wholeAgain _ (noDigit _ (stops rest' ends).1)
    simp only [List.append_assoc]
    rw [readNumber_of_whole (fun _ => head_ne_minus (begins _)) again, sameFraction, leftFraction,
      sameExponent, leftExponent, value]
    rfl

/-! ## Words and numbers -/

/-- A value that is neither a string nor a container. -/
def readAtom (t : Text) : Except Stop (Json × Text) := (readWord? false t).getD (readNumber t)

/-- A word or a number. -/
structure Atom where
  text : Text
  value : Json
  some : text ≠ []
  atomic : ∀ c ∈ text, isAtomic c
  read : ∀ rest, Ends rest → readAtom (text ++ rest) = .ok (value, rest)

/-- The words that stand for a value. -/
def words : List (Text × Json) :=
  [("null", .null), ("true", .bool true), ("false", .bool false)]

theorem readAtom_word {name : Text} {value : Json} (member : (name, value) ∈ words) (rest : Text) :
    readAtom (name ++ rest) = .ok (value, rest) := by
  simp only [words, List.mem_cons, Prod.mk.injEq, List.not_mem_nil, or_false] at member
  rcases member with ⟨rfl, rfl⟩ | ⟨rfl, rfl⟩ | ⟨rfl, rfl⟩ <;> rfl

theorem readWord?_number {negative : Bool} {text : Text}
    (begins : ∃ c, text.head? = some c ∧ c.isDigit) (rest : Text) :
    readWord? false (numberSign negative ++ text ++ rest) = none := by
  obtain ⟨c, first, digit⟩ := begins
  obtain ⟨tail, rfl⟩ := List.head?_eq_some_iff.mp first
  have apart : ∀ d : Char, d.isDigit = false → d ≠ c := by
    rintro d letter rfl
    rw [digit] at letter
    cases letter
  have n := apart 'n' rfl
  have t := apart 't' rfl
  have f := apart 'f' rfl
  have n' := apart 'N' rfl
  have i := apart 'I' rfl
  have m := apart '-' rfl
  cases negative <;>
    simp [readWord?, after?, List.isPrefixOf?, numberSign, n, t, f, n', i, m]

/-- The three constants are refused, so only a word is read. -/
theorem word_of_readWord? {t rest : Text} {v : Json}
    (h : readWord? false t = some (.ok (v, rest))) : ∃ name, (name, v) ∈ words ∧ t = name ++ rest := by
  simp only [readWord?, Option.orElse_eq_orElse, Option.orElse_eq_or, Option.or_eq_some_iff,
    Option.map_eq_some_iff, Bool.false_eq_true, if_false, Except.ok.injEq, Prod.mk.injEq,
    after?_eq_some, reduceCtorEq, and_false, exists_false, or_false] at h
  rcases h with ⟨tail, rfl, rfl, rfl⟩ | ⟨-, ⟨tail, rfl, rfl, rfl⟩ | ⟨-, tail, rfl, rfl, rfl⟩⟩
  · exact ⟨"null", by simp [words], rfl⟩
  · exact ⟨"true", by simp [words], rfl⟩
  · exact ⟨"false", by simp [words], rfl⟩

theorem exists_atom {t rest : Text} {v : Json} (h : readAtom t = .ok (v, rest)) :
    ∃ a : Atom, t = a.text ++ rest ∧ a.value = v := by
  cases word : readWord? false t with
  | none =>
      rw [readAtom, word, Option.getD_none] at h
      obtain ⟨negative, text, rfl, begins, atomic, again⟩ := exists_number h
      refine ⟨⟨numberSign negative ++ text, v, ?_, ?_, ?_⟩, rfl, rfl⟩
      · intro empty
        obtain ⟨c, first, -⟩ := begins
        rw [(List.append_eq_nil_iff.mp empty).2] at first
        cases first
      · refine List.forall_mem_append.mpr ⟨?_, atomic⟩
        cases negative <;> decide
      · intro rest' ends
        rw [readAtom, readWord?_number begins, Option.getD_none, again rest' ends]
  | some found =>
      have same := h
      rw [readAtom, word, Option.getD_some] at same
      rw [same] at word
      obtain ⟨name, member, rfl⟩ := word_of_readWord? word
      have atomic : ∀ pair ∈ words, pair.1 ≠ [] ∧ ∀ c ∈ pair.1, isAtomic c := by decide
      obtain ⟨some, letters⟩ := atomic _ member
      exact ⟨⟨name, v, some, letters, fun rest' _ => readAtom_word member rest'⟩, rfl, rfl⟩

end Recast.Json
