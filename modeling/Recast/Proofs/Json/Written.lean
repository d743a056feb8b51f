import Recast.Proofs.Json.Members
import Recast.Proofs.Json.Numeral
import Recast.Proofs.Json.Quote
import Recast.Proofs.Json.Repair

/-! # Reading what is written

A value is written with numbers that JSON may not have: infinite ones and the one that
is no number. What is written reads as a value again when there is none of these and the
containers are not nested too deeply, whatever the style.
-/

namespace Recast.Json

open Text

/-! ## Kinds of values -/

mutual
/-- Does `p` hold of each value inside that is no container? -/
def everywhere (p : Json → Bool) : Json → Bool
  | .array items => everywhereItems p items
  | .object members => everywhereMembers p members
  | v => p v

def everywhereItems (p : Json → Bool) : List Json → Bool
  | [] => true
  | item :: items => everywhere p item && everywhereItems p items

def everywhereMembers (p : Json → Bool) : List (Text × Json) → Bool
  | [] => true
  | (_, value) :: members => everywhere p value && everywhereMembers p members
end

/-- Is this no number, or a finite one? -/
def finiteNumber : Json → Bool
  | .float x => x.isFinite
  | _ => true

/-- Is this no binary64 number, or one of the format? -/
def canonicalNumber : Json → Bool
  | .float x => x.Canonical
  | _ => true

/-- Has an integer no more digits than are read? -/
def boundedNumber : Json → Bool
  | .int n => n.natAbs < Nat.pow 10 maxDigits
  | _ => true

/-- Is this anything but a binary64 number? -/
def exactNumber : Json → Bool
  | .float _ => false
  | _ => true

mutual
/-- The greatest number of containers inside each other. -/
def nesting : Json → Nat
  | .array items => nestingItems items + 1
  | .object members => nestingMembers members + 1
  | _ => 0

def nestingItems : List Json → Nat
  | [] => 0
  | item :: items => max (nesting item) (nestingItems items)

def nestingMembers : List (Text × Json) → Nat
  | [] => 0
  | (_, value) :: members => max (nesting value) (nestingMembers members)
end

mutual
/-- No object has a key twice. -/
def Distinct : Json → Prop
  | .array items => DistinctItems items
  | .object members => (members.map (·.1)).Nodup ∧ DistinctMembers members
  | _ => True

def DistinctItems : List Json → Prop
  | [] => True
  | item :: items => Distinct item ∧ DistinctItems items

def DistinctMembers : List (Text × Json) → Prop
  | [] => True
  | (_, value) :: members => Distinct value ∧ DistinctMembers members
end

/-! ## Numbers -/

theorem readFraction_append {fraction rest : Text} (h : IsFraction fraction) (stop : Stops rest) :
    (readFraction (fraction ++ rest)).map (·.1) =
      if fraction = [] then none else some fraction.tail := by
  rcases h with rfl | ⟨digits, rfl, some, all⟩
  · simp [readFraction_of_stops stop]
  · simp [readFraction_digits some all stop.1]

theorem readExponent_isSome {exponent : Text} (h : IsExponent exponent) (some : exponent ≠ []) :
    (readExponent exponent).isSome := by
  have left := leftBy_exponent h
  cases found : readExponent exponent with
  | some found => rfl
  | none =>
      rw [leftBy, found] at left
      exact absurd left some

/-- The parts of a number that is no integer. -/
theorem numeral_parts (negative : Bool) {whole fraction exponent : Text} (f : IsFraction fraction)
    (e : IsExponent exponent) (some : fraction ≠ [] ∨ exponent ≠ []) :
    numeral negative whole ((readFraction (fraction ++ exponent)).map (·.1))
      ((readExponent exponent).map (·.1)) = .ok (.float (partsValue negative whole fraction exponent)) := by
  rw [readFraction_append f e.stops, partsValue, exponentPower]
  by_cases bare : fraction = []
  · obtain ⟨found, read⟩ :=
      Option.isSome_iff_exists.mp (readExponent_isSome e (some.resolve_left (not_not.mpr bare)))
    rw [if_pos bare, read, bare]
    rfl
  · rw [if_neg bare]
    cases readExponent exponent <;> rfl

theorem readAtom_parts (negative : Bool) {whole fraction exponent : Text} (w : IsWhole whole)
    (f : IsFraction fraction) (e : IsExponent exponent) :
    readAtom (numberSign negative ++ (whole ++ (fraction ++ exponent))) =
      (numeral negative whole ((readFraction (fraction ++ exponent)).map (·.1))
        ((readExponent exponent).map (·.1))).map (·, []) := by
  obtain ⟨c, rest, spelled, digit⟩ := w.first
  have begins : ∃ c, (whole ++ (fraction ++ exponent)).head? = some c ∧ c.isDigit :=
    ⟨c, by simp [spelled], digit⟩
  have word : readWord? false (numberSign negative ++ (whole ++ (fraction ++ exponent)) ++ []) =
      none := readWord?_number begins []
  rw [List.append_nil] at word
  have read := readWhole_append w (f.noDigit e.stops.1)
  rw [readAtom, word, Option.getD_none, readNumber_of_whole (fun _ => head_ne_minus begins) read,
    leftBy_fraction f e.stops, leftBy_exponent e]

theorem length_ofNat_le {n k : Nat} (some : 0 < k) (small : n < Nat.pow 10 k) :
    (ofNat n).length ≤ k :=
  (Nat.length_toDigits_le_iff (by decide) some).mpr small

theorem bounded_int {n : Int} :
    everywhere boundedNumber (.int n) = true ↔ n.natAbs < Nat.pow 10 maxDigits := by
  simp only [everywhere, boundedNumber, decide_eq_true_eq]

theorem readAtom_int {n : Int} (bounded : n.natAbs < Nat.pow 10 maxDigits) :
    readAtom (ofInt n) = .ok (.int n, []) := by
  have digits (m : Nat) (small : m < Nat.pow 10 maxDigits) :
      ¬ maxDigits < (ofNat m).length :=
    Nat.not_lt.mpr (length_ofNat_le (by decide) small)
  have value (m : Nat) : Nat.ofDigitChars 10 (ofNat m) 0 = m := Nat.ofDigitChars_ten_toDigits
  have plain (negative : Bool) (m : Nat) (small : m < Nat.pow 10 maxDigits) :
      readAtom (numberSign negative ++ ofNat m) =
        .ok (.int (if negative then -(m : Int) else m), []) := by
    have read := readAtom_parts negative (isWhole_ofNat m) (.inl rfl) (.inl rfl)
    simp only [List.append_nil] at read
    rw [read]
    simp [numeral, readFraction, readExponent, digits m small, value, Except.map]
  cases n with
  | ofNat m => exact plain false m bounded
  | negSucc m => exact plain true (m + 1) bounded

theorem readAtom_finite {x : Binary64} (finite : x.isFinite = true) :
    ∃ y, readAtom (numberLayout.write x) = .ok (.float y, []) ∧ (x.Canonical → y = x) := by
  cases x with
  | infinite negative => simp [Binary64.isFinite] at finite
  | nan => simp [Binary64.isFinite] at finite
  | finite negative mantissa exponent =>
      obtain ⟨whole, fraction, mark, same, w, f, e, some, value⟩ :=
        exists_write negative mantissa exponent
      rw [same, readAtom_parts negative w f e, numeral_parts negative f e some]
      exact ⟨_, rfl, value⟩

/-- The words for the other numbers are refused. -/
theorem readAtom_not_finite {x : Binary64} (other : x.isFinite = false) (rest : Text) :
    ∃ name, readAtom (numberLayout.write x ++ rest) = .error (.constant name) := by
  cases x with
  | finite negative mantissa exponent => simp [Binary64.isFinite] at other
  | nan => exact ⟨"NaN", rfl⟩
  | infinite negative =>
      cases negative with
      | false => exact ⟨"Infinity", rfl⟩
      | true => exact ⟨"-Infinity", rfl⟩

/-! ## What is read -/

def deeper? : Nat → Option Nat
  | 0 => none
  | depth + 1 => some depth

mutual
/-- The value that is read of a written one, when `depth` containers may be opened. -/
def reread (depth : Nat) : Json → Option Json
  | .float x => (readAtom (numberLayout.write x)).toOption.map (·.1)
  | .array items => do
    let depth ← deeper? depth
    return .array (← rereadItems depth items)
  | .object members => do
    let depth ← deeper? depth
    return .object (ofPairs (← rereadMembers depth members))
  | v => some v

def rereadItems (depth : Nat) : List Json → Option (List Json)
  | [] => some []
  | item :: items => do
    let v ← reread depth item
    return v :: (← rereadItems depth items)

def rereadMembers (depth : Nat) : List (Text × Json) → Option (List (Text × Json))
  | [] => some []
  | (key, value) :: members => do
    let v ← reread depth value
    return (key, v) :: (← rereadMembers depth members)
end

variable {style : Style}

/-- The start of a line is white space. -/
def lineSpace (style : Style) (level : Nat) : Space where
  text := style.lineAt level
  space := by
    cases style with
    | pretty =>
        refine List.forall_mem_cons.mpr ⟨rfl, fun c member => ?_⟩
        rw [List.eq_of_mem_replicate member]
        rfl
    | _ => simp [Style.lineAt]

/-- The comma between two items. -/
def commaGap (style : Style) (level : Nat) : Gap where
  before := noSpace
  after := match style with
    | .compact => noSpace
    | .spaced => ⟨[' '], by simp [isSpace]⟩
    | .pretty => lineSpace .pretty level

theorem text_commaGap (style : Style) (level : Nat) :
    (commaGap style level).text ',' = style.comma level := by
  cases style <;> rfl

/-- The colon behind a name. -/
def colonGap (style : Style) : Gap where
  before := noSpace
  after := match style with
    | .compact => noSpace
    | _ => ⟨[' '], by simp [isSpace]⟩

theorem text_colonGap (style : Style) : (colonGap style).text ':' = style.colon := by
  cases style <;> rfl

/-- What is written for a string, as a string between quotes. -/
theorem exists_quoted_of_string (s : Text) :
    ∃ q : Quoted, q.raw = s.flatMap escapeChar ∧ q.value = s := by
  obtain ⟨pieces, spelled, same⟩ := exists_spells s
  exact ⟨⟨_, pieces, spelled⟩, rfl, by rw [Quoted.value_eq spelled, same]⟩

theorem starts_write (style : Style) (level : Nat) (v : Json) : Starts (write style level v) := by
  have numeral {t : Text} (h : Numeral t) : Starts t := by
    obtain ⟨c, rest, spelled, -⟩ := h.first
    exact starts_of_atomic (by simp [spelled]) h.atomic
  cases v with
  | null => exact ⟨'n', "ull".toList, rfl, by decide⟩
  | bool b =>
      cases b with
      | false => exact ⟨'f', "alse".toList, rfl, by decide⟩
      | true => exact ⟨'t', "rue".toList, rfl, by decide⟩
  | int n => exact numeral (numeral_ofInt n)
  | float x =>
      cases x with
      | finite negative mantissa exponent => exact numeral (numeral_write negative mantissa exponent)
      | nan => exact ⟨'N', "aN".toList, rfl, by decide⟩
      | infinite negative =>
          cases negative with
          | false => exact ⟨'I', "nfinity".toList, rfl, by decide⟩
          | true => exact ⟨'-', "Infinity".toList, rfl, by decide⟩
  | string s => exact ⟨'"', _, rfl, by decide⟩
  | array items => cases items <;> exact ⟨'[', _, rfl, by decide⟩
  | object members => cases members <;> exact ⟨'{', _, rfl, by decide⟩

theorem write_length_pos (style : Style) (level : Nat) (v : Json) :
    0 < (write style level v).length := by
  obtain ⟨c, rest, spelled, -⟩ := starts_write style level v
  simp [spelled]

theorem readValue_of_atom {t rest : Text} {v : Json} (h : readAtom t = .ok (v, [])) (ends : Ends rest)
    (fuel depth : Nat) : readValue false (fuel + 1) depth (t ++ rest) = .ok (v, rest) := by
  obtain ⟨a, spelled, rfl⟩ := exists_atom h
  rw [spelled, List.append_nil, readValue_atom ends]

theorem readValue_word {name rest : Text} {v : Json} (member : (name, v) ∈ words) (ends : Ends rest)
    (fuel depth : Nat) : readValue false (fuel + 1) depth (name ++ rest) = .ok (v, rest) := by
  have read := readAtom_word member []
  rw [List.append_nil] at read
  exact readValue_of_atom read ends fuel depth

theorem readValue_float {x : Binary64} {rest : Text} (ends : Ends rest) (fuel depth : Nat) :
    (readValue false (fuel + 1) depth (numberLayout.write x ++ rest)).toOption =
      (reread depth (.float x)).map (·, rest) := by
  cases finite : x.isFinite with
  | true =>
      obtain ⟨v, read, -⟩ := readAtom_finite finite
      rw [readValue_of_atom read ends, reread, read]
      rfl
  | false =>
      obtain ⟨name, refused⟩ := readAtom_not_finite finite []
      obtain ⟨name', refused'⟩ := readAtom_not_finite finite rest
      have apart (d : Char) (other : isAtomic d = false) :
          (numberLayout.write x ++ rest).head? ≠ some d := by
        cases x with
        | finite negative mantissa exponent => simp [Binary64.isFinite] at finite
        | nan =>
            rintro same
            obtain rfl := Option.some.inj same
            exact absurd other (by decide)
        | infinite negative =>
            cases negative <;> rintro same <;> obtain rfl := Option.some.inj same <;>
              exact absurd other (by decide)
      rw [List.append_nil] at refused
      rw [readValue_of_apart (apart _ rfl) (apart _ rfl) (apart _ rfl), refused', reread, refused]
      rfl

/-! ## Containers -/

section

variable {fuel depth : Nat} {t t' rest : Text}

theorem readValue_write_array {read : Nat → Option (List Json)} (space : Space) (starts : Starts t)
    (items : ∀ depth, (readItems false fuel depth t).toOption = (read depth).map (·, rest)) :
    (readValue false (fuel + 1) depth ('[' :: (space.text ++ t))).toOption =
      (do let depth ← deeper? depth; return Json.array (← read depth)).map (·, rest) := by
  cases depth with
  | zero => rfl
  | succ depth =>
      obtain ⟨c, tail, rfl, solid, -, other, -⟩ := starts
      simp only [readValue, skipSpace_append, skipSpace_cons (isSpace_of_solid solid)]
      split
      · rename_i same
        exact absurd (List.cons.inj same).1 other
      · rw [toOption_bind, items]
        cases found : read depth <;> simp [deeper?, found, Except.toOption]

theorem readValue_write_object {read : Nat → Option (List (Text × Json))} (space : Space)
    (quoted : ∃ tail, t = '"' :: tail)
    (members : ∀ depth, (readMembers false fuel depth t).toOption = (read depth).map (·, rest)) :
    (readValue false (fuel + 1) depth ('{' :: (space.text ++ t))).toOption =
      (do let depth ← deeper? depth; return Json.object (ofPairs (← read depth))).map (·, rest) := by
  cases depth with
  | zero => rfl
  | succ depth =>
      obtain ⟨tail, rfl⟩ := quoted
      simp only [readValue, skipSpace_append, skipSpace_cons (c := '"') rfl]
      split
      · rename_i same
        exact absurd (List.cons.inj same).1 (by decide)
      · rw [toOption_bind, members]
        cases found : read depth <;> simp [deeper?, found, Except.toOption]

theorem readItems_write_last {read : Option Json} {closing : Space}
    (item : (readValue false fuel depth (t ++ (closing.text ++ ']' :: rest))).toOption =
      read.map (·, closing.text ++ ']' :: rest)) :
    (readItems false (fuel + 1) depth (t ++ (closing.text ++ ']' :: rest))).toOption =
      (do let v ← read; return [v]).map (·, rest) := by
  simp only [readItems, toOption_bind, item]
  cases read with
  | none => rfl
  | some v =>
      simp only [Option.map_some, Option.bind_some, skipSpace_append, skipSpace_cons (c := ']') rfl]
      rfl

theorem readItems_write_more {read : Option Json} {read' : Option (List Json)} {comma : Gap}
    (item : (readValue false fuel depth (t ++ (comma.text ',' ++ t'))).toOption =
      read.map (·, comma.text ',' ++ t'))
    (starts : Starts t') (items : (readItems false fuel depth t').toOption = read'.map (·, rest)) :
    (readItems false (fuel + 1) depth (t ++ (comma.text ',' ++ t'))).toOption =
      (do let v ← read; return v :: (← read')).map (·, rest) := by
  simp only [readItems, toOption_bind, item]
  cases read with
  | none => rfl
  | some v =>
      simp only [Option.map_some, Option.bind_some, Gap.text, List.append_assoc, List.cons_append,
        skipSpace_append, skipSpace_cons (c := ',') rfl, starts.skipSpace, toOption_bind, items]
      cases read' <;> rfl

theorem readMembers_write_last {read : Option Json} {key : Quoted} {colon : Gap} {closing : Space}
    (starts : Starts t)
    (value : (readValue false fuel depth (t ++ (closing.text ++ '}' :: rest))).toOption =
      read.map (·, closing.text ++ '}' :: rest)) :
    (readMembers false (fuel + 1) depth
        (keyText key colon ++ (t ++ (closing.text ++ '}' :: rest)))).toOption =
      (do let v ← read; return [(key.value, v)]).map (·, rest) := by
  rw [readMembers_key (starts.append _), toOption_bind, value]
  cases read with
  | none => rfl
  | some v =>
      simp only [Option.map_some, Option.bind_some, skipSpace_append, skipSpace_cons (c := '}') rfl]
      rfl

theorem readMembers_write_more {read : Option Json} {read' : Option (List (Text × Json))}
    {key : Quoted} {colon comma : Gap} (starts : Starts t)
    (value : (readValue false fuel depth (t ++ (comma.text ',' ++ t'))).toOption =
      read.map (·, comma.text ',' ++ t'))
    (quoted : ∃ tail, t' = '"' :: tail)
    (members : (readMembers false fuel depth t').toOption = read'.map (·, rest)) :
    (readMembers false (fuel + 1) depth
        (keyText key colon ++ (t ++ (comma.text ',' ++ t')))).toOption =
      (do let v ← read; return (key.value, v) :: (← read')).map (·, rest) := by
  rw [readMembers_key (starts.append _), toOption_bind, value]
  obtain ⟨tail, rfl⟩ := quoted
  cases read with
  | none => rfl
  | some v =>
      simp only [Option.map_some, Option.bind_some, Gap.text, List.append_assoc, List.cons_append,
        skipSpace_append, skipSpace_cons (c := ',') rfl, skipSpace_cons (c := '"') rfl,
        toOption_bind, members]
      cases read' <;> rfl

end

theorem ends_writeItems (style : Style) (level : Nat) (items : List Json) (closing : Space)
    (rest : Text) : Ends (writeItems style level items ++ (closing.text ++ ']' :: rest)) := by
  cases items with
  | nil => exact ends_space (ends_cons (.inr (.inl rfl)) rest) closing
  | cons item items =>
      rw [writeItems, ← text_commaGap, List.append_assoc, List.append_assoc]
      exact ends_comma _ _

theorem ends_writeMembers (style : Style) (level : Nat) (members : List (Text × Json))
    (closing : Space) (rest : Text) :
    Ends (writeMembers style level members ++ (closing.text ++ '}' :: rest)) := by
  cases members with
  | nil => exact ends_space (ends_cons (.inr (.inr rfl)) rest) closing
  | cons member members =>
      rw [writeMembers, ← text_commaGap, List.append_assoc, List.append_assoc]
      exact ends_comma _ _

/-- A member starts with the quote of its key. -/
theorem exists_writeMember (style : Style) (level : Nat) (member : Text × Json) (more : Text) :
    ∃ rest, writeMember style level member ++ more = '"' :: rest := by
  obtain ⟨key, value⟩ := member
  rw [writeMember, quote]
  exact ⟨_, rfl⟩

theorem sizeOf_value_lt (member : Text × Json) : sizeOf member.2 < sizeOf member := by
  obtain ⟨key, value⟩ := member
  simp only [Prod.mk.sizeOf_spec]
  omega

mutual
/-- A written value reads as `reread` says, wherever it stands. -/
theorem readValue_write (style : Style) (v : Json) {fuel depth level : Nat} {rest : Text}
    (bounded : v.everywhere boundedNumber = true)
    (enough : 2 * (write style level v).length ≤ fuel) (ends : Ends rest) :
    (readValue false fuel depth (write style level v ++ rest)).toOption =
      (v.reread depth).map (·, rest) := by
  have some := write_length_pos style level v
  cases fuel with
  | zero => omega
  | succ fuel =>
  cases v with
  | null =>
      rw [write, readValue_word (v := .null) (by simp [words]) ends]
      rfl
  | bool b =>
      cases b with
      | false =>
          rw [write, readValue_word (v := .bool false) (by simp [words]) ends]
          rfl
      | true =>
          rw [write, readValue_word (v := .bool true) (by simp [words]) ends]
          rfl
  | int n =>
      rw [write, readValue_of_atom (readAtom_int (bounded_int.mp bounded)) ends]
      rfl
  | float x => exact readValue_float ends fuel depth
  | string s =>
      obtain ⟨q, raw, value⟩ := exists_quoted_of_string s
      rw [write, quote, ← raw]
      simp only [List.cons_append, List.append_assoc]
      rw [List.nil_append, readValue_string, value]
      rfl
  | array items =>
      cases items with
      | nil =>
          cases depth with
          | zero => rfl
          | succ depth => rfl
      | cons item items =>
          rw [write] at enough ⊢
          simp only [List.length_cons, List.length_append, List.length_nil] at enough
          simp only [List.cons_append, List.append_assoc]
          refine readValue_write_array (lineSpace style (level + 1))
            ((starts_write style (level + 1) item).append _) fun depth => ?_
          exact readItems_write style (lineSpace style level) item items bounded (by omega)
  | object members =>
      cases members with
      | nil =>
          cases depth with
          | zero => rfl
          | succ depth => rfl
      | cons member members =>
          rw [write] at enough ⊢
          simp only [List.length_cons, List.length_append, List.length_nil] at enough
          simp only [List.cons_append, List.append_assoc]
          have inner : 2 * ((writeMember style (level + 1) member).length
              + (writeMembers style (level + 1) members).length) + 1 ≤ fuel := by
            omega
          refine readValue_write_object (lineSpace style (level + 1))
            (exists_writeMember style (level + 1) member _) fun depth => ?_
          exact readMembers_write style (lineSpace style level) member.1 member.2 members bounded
            inner
termination_by fuel

theorem readItems_write (style : Style) (closing : Space) (item : Json) (items : List Json)
    {fuel depth level : Nat} {rest : Text} (bounded : everywhereItems boundedNumber (item :: items) = true)
    (enough : 2 * ((write style level item).length + (writeItems style level items).length) + 1
      ≤ fuel) :
    (readItems false fuel depth (write style level item ++ (writeItems style level items
        ++ (closing.text ++ ']' :: rest)))).toOption =
      (rereadItems depth (item :: items)).map (·, rest) := by
  cases fuel with
  | zero => omega
  | succ fuel =>
  simp only [everywhereItems, Bool.and_eq_true] at bounded
  have first : (readValue false fuel depth (write style level item
      ++ (writeItems style level items ++ (closing.text ++ ']' :: rest)))).toOption = _ :=
    readValue_write style item bounded.1 (by omega)
      (ends_writeItems style level items closing rest)
  cases items with
  | nil => exact readItems_write_last first
  | cons next others =>
      rw [writeItems, ← text_commaGap, List.append_assoc, List.append_assoc] at first ⊢
      simp only [writeItems, ← text_commaGap, Gap.text, List.length_append, List.length_cons]
        at enough
      have later : (readItems false fuel depth (write style level next
          ++ (writeItems style level others ++ (closing.text ++ ']' :: rest)))).toOption = _ :=
        readItems_write style closing next others bounded.2 (by omega)
      exact readItems_write_more first ((starts_write style level next).append _) later
termination_by fuel

theorem readMembers_write (style : Style) (closing : Space) (key : Text) (value : Json)
    (members : List (Text × Json)) {fuel depth level : Nat} {rest : Text}
    (bounded : everywhereMembers boundedNumber ((key, value) :: members) = true)
    (enough : 2 * ((writeMember style level (key, value)).length
      + (writeMembers style level members).length) + 1 ≤ fuel) :
    (readMembers false fuel depth (writeMember style level (key, value)
        ++ (writeMembers style level members ++ (closing.text ++ '}' :: rest)))).toOption =
      (rereadMembers depth ((key, value) :: members)).map (·, rest) := by
  cases fuel with
  | zero => omega
  | succ fuel =>
  obtain ⟨q, raw, rfl⟩ := exists_quoted_of_string key
  have named : writeMember style level (q.value, value) =
      keyText q (colonGap style) ++ write style level value := by
    rw [writeMember, quote, ← raw, keyText, text_colonGap]
    simp
  rw [named] at enough ⊢
  simp only [everywhereMembers, Bool.and_eq_true] at bounded
  simp only [List.length_append] at enough
  have first : (readValue false fuel depth (write style level value
      ++ (writeMembers style level members ++ (closing.text ++ '}' :: rest)))).toOption = _ :=
    readValue_write style value bounded.1 (by omega)
      (ends_writeMembers style level members closing rest)
  rw [List.append_assoc]
  cases members with
  | nil => exact readMembers_write_last (starts_write style level value) first
  | cons next others =>
      rw [writeMembers, ← text_commaGap, List.append_assoc, List.append_assoc] at first ⊢
      simp only [writeMembers, ← text_commaGap, Gap.text, List.length_append, List.length_cons]
        at enough
      have inner : 2 * ((writeMember style level next).length
          + (writeMembers style level others).length) + 1 ≤ fuel := by
        omega
      have later : (readMembers false fuel depth (writeMember style level next
          ++ (writeMembers style level others ++ (closing.text ++ '}' :: rest)))).toOption = _ :=
        readMembers_write style closing next.1 next.2 others bounded.2 inner
      exact readMembers_write_more (starts_write style level value) first
        (exists_writeMember style level next _) later
termination_by fuel
end

/-! ## Whole texts -/

theorem parse_write (style : Style) {v : Json} (bounded : v.everywhere boundedNumber = true) :
    (parse (write style 0 v)).toOption = v.reread maxDepth := by
  obtain ⟨c, rest, spelled, solid, -, -, -, mark⟩ := starts_write style 0 v
  have plain : (write style 0 v).head? ≠ some '\uFEFF' := by
    rw [spelled]
    exact fun same => mark (Option.some.inj same)
  have start : skipSpace (write style 0 v) = write style 0 v := (starts_write style 0 v).skipSpace
  have read : (readValue false (2 * (write style 0 v).length + 2) maxDepth
      (write style 0 v ++ [])).toOption = _ :=
    readValue_write style v bounded (Nat.le_add_right _ _) ends_nil
  rw [List.append_nil] at read
  have strict : (parse (write style 0 v)).toOption =
      (readAll false (write style 0 v)).toOption := by
    rw [parse_eq_readAll plain]
    cases readAll false (write style 0 v) <;> rfl
  rw [strict, readAll, start, toOption_bind, read]
  cases v.reread maxDepth <;> rfl

mutual
theorem isSome_reread (v : Json) (depth : Nat) :
    (v.reread depth).isSome = true ↔ v.everywhere finiteNumber = true ∧ v.nesting ≤ depth := by
  cases v with
  | null => simp [reread, everywhere, finiteNumber, nesting]
  | bool b => simp [reread, everywhere, finiteNumber, nesting]
  | int n => simp [reread, everywhere, finiteNumber, nesting]
  | string s => simp [reread, everywhere, finiteNumber, nesting]
  | float x =>
      cases finite : x.isFinite with
      | true =>
          obtain ⟨w, read, -⟩ := readAtom_finite finite
          simp [reread, read, everywhere, finiteNumber, finite, nesting, Except.toOption]
      | false =>
          obtain ⟨name, refused⟩ := readAtom_not_finite finite []
          rw [List.append_nil] at refused
          simp [reread, refused, everywhere, finiteNumber, finite, Except.toOption]
  | array items =>
      cases depth with
      | zero => simp [reread, deeper?, nesting]
      | succ depth =>
          have inner := isSome_rereadItems items depth
          cases found : rereadItems depth items <;>
            simp_all [reread, deeper?, everywhere, nesting]
  | object members =>
      cases depth with
      | zero => simp [reread, deeper?, nesting]
      | succ depth =>
          have inner := isSome_rereadMembers members depth
          cases found : rereadMembers depth members <;>
            simp_all [reread, deeper?, everywhere, nesting]
termination_by sizeOf v

theorem isSome_rereadItems (items : List Json) (depth : Nat) :
    (rereadItems depth items).isSome = true ↔
      everywhereItems finiteNumber items = true ∧ nestingItems items ≤ depth := by
  cases items with
  | nil => simp [rereadItems, everywhereItems, nestingItems]
  | cons item items =>
      have first := isSome_reread item depth
      have later := isSome_rereadItems items depth
      have both : (rereadItems depth (item :: items)).isSome = true ↔
          (reread depth item).isSome = true ∧ (rereadItems depth items).isSome = true := by
        rw [rereadItems]
        cases reread depth item <;> cases rereadItems depth items <;> simp
      rw [both, first, later, everywhereItems, nestingItems, Bool.and_eq_true, Nat.max_le]
      exact and_and_and_comm
termination_by sizeOf items

theorem isSome_rereadMembers (members : List (Text × Json)) (depth : Nat) :
    (rereadMembers depth members).isSome = true ↔
      everywhereMembers finiteNumber members = true ∧ nestingMembers members ≤ depth := by
  cases members with
  | nil => simp [rereadMembers, everywhereMembers, nestingMembers]
  | cons member members =>
      obtain ⟨key, value⟩ := member
      have first := isSome_reread value depth
      have later := isSome_rereadMembers members depth
      have both : (rereadMembers depth ((key, value) :: members)).isSome = true ↔
          (reread depth value).isSome = true ∧ (rereadMembers depth members).isSome = true := by
        rw [rereadMembers]
        cases reread depth value <;> cases rereadMembers depth members <;> simp
      rw [both, first, later, everywhereMembers, nestingMembers, Bool.and_eq_true, Nat.max_le]
      exact and_and_and_comm
termination_by sizeOf members
end

end Recast.Json
