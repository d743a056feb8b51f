import Recast.Proofs.Json.Cases
import Recast.Proofs.Json.Document
import Recast.Proofs.Text.Blank

/-! # Reading the text of a tree

Reading the text of a document gives the value of the tree, whatever follows it. In the
other direction, each text that reads as a value is the text of a tree without commas
before closing brackets.
-/

namespace Recast.Json

open Text

/-! ## White space -/

theorem skipSpace_append (space : Space) (t : Text) : skipSpace (space.text ++ t) = skipSpace t :=
  List.dropWhile_append_of_pos space.space

theorem isBlank_of_isSpace {c : Char} (space : isSpace c = true) : isBlank c = true := by
  simp only [isSpace, Bool.or_eq_true, beq_iff_eq] at space
  rcases space with ((rfl | rfl) | rfl) | rfl <;> rfl

theorem Space.blank (space : Space) : ∀ c ∈ space.text, isBlank c :=
  fun c member => isBlank_of_isSpace (space.space c member)

theorem isSpace_of_solid {c : Char} (solid : isBlank c = false) : isSpace c = false := by
  cases space : isSpace c with
  | false => rfl
  | true => simp [isBlank_of_isSpace space] at solid

theorem isBlank_of_isAtomic {c : Char} (atomic : isAtomic c = true) : isBlank c = false := by
  simp only [isAtomic, Bool.or_eq_true, beq_iff_eq] at atomic
  rcases atomic with ((letter | rfl) | rfl) | rfl
  · exact isBlank_of_isWord (isWord_of_isAlphanum letter)
  · rfl
  · rfl
  · rfl

theorem skipSpace_cons {c : Char} (solid : isSpace c = false) (t : Text) :
    skipSpace (c :: t) = c :: t :=
  List.dropWhile_cons_of_neg (by simp [solid])

theorem ends_nil : Ends [] := by
  intro c first
  cases first

theorem ends_cons {c : Char} (sign : c = ',' ∨ c = ']' ∨ c = '}') (rest : Text) :
    Ends (c :: rest) := by
  intro d first
  obtain rfl : c = d := by simpa using first
  exact .inr sign

theorem ends_space {rest : Text} (ends : Ends rest) (space : Space) : Ends (space.text ++ rest) := by
  intro c first
  obtain ⟨text, blank⟩ := space
  cases text with
  | nil => exact ends c first
  | cons d text =>
      obtain rfl : d = c := by simpa using first
      exact .inl (blank d List.mem_cons_self)

/-! ## First characters -/

/-- A value starts with neither white space nor a closing bracket. -/
def Starts (t : Text) : Prop :=
  ∃ c rest, t = c :: rest ∧ isBlank c = false ∧ c ≠ ',' ∧ c ≠ ']' ∧ c ≠ '}' ∧ c ≠ '\uFEFF'

theorem Starts.append {t : Text} (h : Starts t) (rest : Text) : Starts (t ++ rest) := by
  obtain ⟨c, tail, rfl, start⟩ := h
  exact ⟨c, tail ++ rest, rfl, start⟩

theorem Starts.skipSpace {t : Text} (h : Starts t) : skipSpace t = t := by
  obtain ⟨c, tail, rfl, solid, -⟩ := h
  exact skipSpace_cons (isSpace_of_solid solid) tail

theorem starts_of_atomic {t : Text} (some : t ≠ []) (atomic : ∀ c ∈ t, isAtomic c) : Starts t := by
  obtain ⟨c, rest, rfl⟩ := List.exists_cons_of_ne_nil some
  have first : isAtomic c = true := atomic c List.mem_cons_self
  have apart (d : Char) (other : isAtomic d = false) : c ≠ d := by
    rintro rfl
    rw [first] at other
    cases other
  exact ⟨c, rest, rfl, isBlank_of_isAtomic first, apart _ rfl, apart _ rfl, apart _ rfl,
    apart _ rfl⟩

theorem Atom.starts (a : Atom) : Starts a.text := starts_of_atomic a.some a.atomic

theorem Document.starts : (d : Document) → Starts d.text
  | .atom a => a.starts
  | .string _ => ⟨'"', _, rfl, by decide⟩
  | .emptyArray _ | .array _ _ => ⟨'[', _, rfl, by decide⟩
  | .emptyObject _ | .object _ _ => ⟨'{', _, rfl, by decide⟩

theorem Items.starts : (items : Items) → Starts items.text
  | .last item ending => by
      rw [Items.text]
      exact item.starts.append _
  | .more item comma rest => by
      rw [Items.text, List.append_assoc]
      exact item.starts.append _

/-- Members start with the quote of their first key. -/
theorem Members.exists_text : (members : Members) → ∃ rest, members.text = '"' :: rest
  | .last .. => ⟨_, rfl⟩
  | .more .. => ⟨_, rfl⟩

theorem Document.length_pos (d : Document) : 0 < d.text.length := by
  obtain ⟨c, rest, spelled, -⟩ := d.starts
  simp [spelled]

/-! ## From trees to values -/

attribute [local simp] readValue readItems readMembers

/-- The stop that a slip leads to. -/
def Slip.Of : Slip → Stop → Prop
  | .comma, .fault _ _ => True
  | .deep, .tooDeep _ => True
  | _, _ => False

/-- Reading gives what the tree gives, and then `rest` is left. -/
def Agrees {α : Type} (result : Except Stop (α × Text)) (expected : Except Slip α)
    (rest : Text) : Prop :=
  match expected with
  | .ok value => result = .ok (value, rest)
  | .error slip => ∃ stop, result = .error stop ∧ slip.Of stop

theorem Agrees.bind {α β : Type} {result : Except Stop (α × Text)} {expected : Except Slip α}
    {rest rest' : Text} (first : Agrees result expected rest)
    {next : α × Text → Except Stop (β × Text)} {next' : α → Except Slip β}
    (second : ∀ value, Agrees (next (value, rest)) (next' value) rest') :
    Agrees (result >>= next) (expected >>= next') rest' := by
  cases expected with
  | ok value =>
      obtain rfl : result = .ok (value, rest) := first
      exact second value
  | error slip =>
      obtain ⟨stop, rfl, same⟩ := first
      exact ⟨stop, rfl, same⟩

/-- After a comma an item is read, and a closing bracket is none. -/
theorem readItems_closing (fuel depth : Nat) (rest : Text) :
    ∃ cause n, readItems false fuel depth (']' :: rest) = .error (.fault cause n) := by
  cases fuel with
  | zero => exact ⟨_, _, rfl⟩
  | succ fuel =>
      cases fuel with
      | zero => exact ⟨_, _, rfl⟩
      | succ fuel => exact ⟨.expectingValue, _, rfl⟩

theorem readMembers_closing (fuel depth : Nat) (rest : Text) :
    ∃ cause n, readMembers false fuel depth ('}' :: rest) = .error (.fault cause n) := by
  cases fuel with
  | zero => exact ⟨_, _, rfl⟩
  | succ fuel => exact ⟨.expectingName, _, rfl⟩

/-- Any other first character than these begins a word or a number. -/
theorem readValue_of_apart {t : Text} (quote : t.head? ≠ some '"') (bracket : t.head? ≠ some '[')
    (brace : t.head? ≠ some '{') (fuel depth : Nat) :
    readValue false (fuel + 1) depth t = readAtom t := by
  cases t with
  | nil => rfl
  | cons c rest =>
      simp only [List.head?_cons, ne_eq, Option.some.injEq] at quote bracket brace
      rw [readValue.eq_def]
      simp only
      split
      · rename_i same
        exact absurd (List.cons.inj same).1 quote
      · rename_i same
        exact absurd (List.cons.inj same).1 bracket
      · rename_i same
        exact absurd (List.cons.inj same).1 brace
      · rfl

theorem readValue_atom {a : Atom} {rest : Text} (ends : Ends rest) (fuel depth : Nat) :
    readValue false (fuel + 1) depth (a.text ++ rest) = .ok (a.value, rest) := by
  have apart (d : Char) (other : isAtomic d = false) : (a.text ++ rest).head? ≠ some d := by
    cases spelled : a.text with
    | nil => exact absurd spelled a.some
    | cons c tail =>
        have atomic : isAtomic c = true := a.atomic c (by simp [spelled])
        simp only [List.cons_append, List.head?_cons, ne_eq, Option.some.injEq]
        rintro rfl
        rw [atomic] at other
        cases other
  rw [readValue_of_apart (apart _ rfl) (apart _ rfl) (apart _ rfl), a.read rest ends]

section

variable {fuel depth : Nat}

theorem readValue_string (q : Quoted) (rest : Text) :
    readValue false (fuel + 1) depth ('"' :: (q.raw ++ '"' :: rest)) = .ok (.string q.value, rest) := by
  simp [q.read]

theorem readValue_emptyArray (space : Space) (rest : Text) :
    Agrees (readValue false (fuel + 1) depth ('[' :: (space.text ++ ']' :: rest)))
      (do let _ ← inside depth; return Json.array []) rest := by
  cases depth with
  | zero => exact ⟨_, rfl, trivial⟩
  | succ depth =>
      simp only [readValue, skipSpace_append, skipSpace_cons (c := ']') rfl]
      rfl

theorem readValue_emptyObject (space : Space) (rest : Text) :
    Agrees (readValue false (fuel + 1) depth ('{' :: (space.text ++ '}' :: rest)))
      (do let _ ← inside depth; return Json.object []) rest := by
  cases depth with
  | zero => exact ⟨_, rfl, trivial⟩
  | succ depth =>
      simp only [readValue, skipSpace_append, skipSpace_cons (c := '}') rfl]
      rfl

theorem readValue_array {t rest : Text} {read : Nat → Except Slip (List Json)} (space : Space)
    (starts : Starts t)
    (items : ∀ depth, Agrees (readItems false fuel depth t) (read depth) rest) :
    Agrees (readValue false (fuel + 1) depth ('[' :: (space.text ++ t)))
      (do let depth ← inside depth; return Json.array (← read depth)) rest := by
  cases depth with
  | zero => exact ⟨_, rfl, trivial⟩
  | succ depth =>
      obtain ⟨c, tail, rfl, solid, -, other, -⟩ := starts
      simp only [readValue, skipSpace_append, skipSpace_cons (isSpace_of_solid solid)]
      split
      · rename_i same
        exact absurd (List.cons.inj same).1 other
      · exact (items depth).bind fun value => rfl

theorem readValue_object {t rest : Text} {read : Nat → Except Slip (List (Text × Json))}
    (space : Space) (quoted : ∃ tail, t = '"' :: tail)
    (members : ∀ depth, Agrees (readMembers false fuel depth t) (read depth) rest) :
    Agrees (readValue false (fuel + 1) depth ('{' :: (space.text ++ t)))
      (do let depth ← inside depth; return Json.object (ofPairs (← read depth))) rest := by
  cases depth with
  | zero => exact ⟨_, rfl, trivial⟩
  | succ depth =>
      obtain ⟨tail, rfl⟩ := quoted
      simp only [readValue, skipSpace_append, skipSpace_cons (c := '"') rfl]
      exact (members depth).bind fun value => rfl

theorem ends_comma (comma : Gap) (rest : Text) : Ends (comma.text ',' ++ rest) := by
  simp only [Gap.text, List.append_assoc, List.cons_append]
  exact ends_space (ends_cons (.inl rfl) _) comma.before

theorem ends_ending (ending : Ending) {c : Char} (closing : c = ']' ∨ c = '}') (rest : Text) :
    Ends (ending.text ++ c :: rest) := by
  obtain ⟨space, comma?⟩ := ending
  cases comma? with
  | none => exact ends_space (ends_cons (.inr closing) rest) space
  | some gap => exact ends_comma gap _

theorem readItems_last {t rest : Text} {read : Except Slip Json} {ending : Ending}
    (item : Agrees (readValue false fuel depth (t ++ (ending.text ++ ']' :: rest))) read
      (ending.text ++ ']' :: rest)) :
    Agrees (readItems false (fuel + 1) depth (t ++ (ending.text ++ ']' :: rest)))
      (do let value ← read; if ending.comma?.isSome then throw Slip.comma else return [value])
      rest := by
  simp only [readItems]
  refine item.bind fun value => ?_
  obtain ⟨space, comma?⟩ := ending
  cases comma? with
  | none =>
      simp only [Ending.text, skipSpace_append, skipSpace_cons (c := ']') rfl]
      rfl
  | some gap =>
      obtain ⟨cause, n, fault⟩ := readItems_closing fuel depth rest
      simp only [Ending.text, Gap.text, List.append_assoc, List.cons_append, skipSpace_append,
        skipSpace_cons (c := ',') rfl, skipSpace_cons (c := ']') rfl, fault]
      exact ⟨_, rfl, trivial⟩

theorem readItems_more {t t' rest : Text} {read : Except Slip Json}
    {read' : Except Slip (List Json)} {comma : Gap}
    (item : Agrees (readValue false fuel depth (t ++ (comma.text ',' ++ t'))) read
      (comma.text ',' ++ t'))
    (starts : Starts t') (items : Agrees (readItems false fuel depth t') read' rest) :
    Agrees (readItems false (fuel + 1) depth (t ++ (comma.text ',' ++ t')))
      (do let value ← read; return value :: (← read')) rest := by
  simp only [readItems]
  refine item.bind fun value => ?_
  simp only [Gap.text, List.append_assoc, List.cons_append, skipSpace_append,
    skipSpace_cons (c := ',') rfl, starts.skipSpace]
  exact items.bind fun values => rfl

/-- A key, its colon and its value are read before what follows the value. -/
theorem readMembers_key {key : Quoted} {colon : Gap} {t : Text} (starts : Starts t) :
    readMembers false (fuel + 1) depth (keyText key colon ++ t) =
      readValue false fuel depth t >>= fun (value, rest) =>
        match skipSpace rest with
        | '}' :: after => return ([(key.value, value)], after)
        | ',' :: rest => do
          let (pairs, after) ← readMembers false fuel depth (skipSpace rest)
          return ((key.value, value) :: pairs, after)
        | rest => .error (.fault .expectingComma rest.length) := by
  simp only [keyText, Gap.text, List.append_assoc, List.cons_append, readMembers, key.read,
    ok_bind, skipSpace_append, skipSpace_cons (c := ':') rfl]
  exact congrArg (fun t => readValue false fuel depth t >>= _) starts.skipSpace

theorem readMembers_last {t rest : Text} {read : Except Slip Json} {key : Quoted} {colon : Gap}
    {ending : Ending} (starts : Starts t)
    (value : Agrees (readValue false fuel depth (t ++ (ending.text ++ '}' :: rest))) read
      (ending.text ++ '}' :: rest)) :
    Agrees (readMembers false (fuel + 1) depth
        (keyText key colon ++ (t ++ (ending.text ++ '}' :: rest))))
      (do
        let value ← read
        if ending.comma?.isSome then throw Slip.comma else return [(key.value, value)])
      rest := by
  rw [readMembers_key (starts.append _)]
  refine value.bind fun value => ?_
  obtain ⟨space, comma?⟩ := ending
  cases comma? with
  | none =>
      simp only [Ending.text, skipSpace_append, skipSpace_cons (c := '}') rfl]
      rfl
  | some gap =>
      obtain ⟨cause, n, fault⟩ := readMembers_closing fuel depth rest
      simp only [Ending.text, Gap.text, List.append_assoc, List.cons_append, skipSpace_append,
        skipSpace_cons (c := ',') rfl, skipSpace_cons (c := '}') rfl, fault]
      exact ⟨_, rfl, trivial⟩

theorem readMembers_more {t t' rest : Text} {read : Except Slip Json}
    {read' : Except Slip (List (Text × Json))} {key : Quoted} {colon comma : Gap}
    (starts : Starts t)
    (value : Agrees (readValue false fuel depth (t ++ (comma.text ',' ++ t'))) read
      (comma.text ',' ++ t'))
    (quoted : ∃ tail, t' = '"' :: tail)
    (members : Agrees (readMembers false fuel depth t') read' rest) :
    Agrees (readMembers false (fuel + 1) depth (keyText key colon ++ (t ++ (comma.text ',' ++ t'))))
      (do let value ← read; return (key.value, value) :: (← read')) rest := by
  rw [readMembers_key (starts.append _)]
  refine value.bind fun value => ?_
  obtain ⟨tail, rfl⟩ := quoted
  simp only [Gap.text, List.append_assoc, List.cons_append, skipSpace_append,
    skipSpace_cons (c := ',') rfl, skipSpace_cons (c := '"') rfl]
  exact members.bind fun pairs => rfl

end

mutual
/-- Reading the text of a document gives the value of the tree. -/
theorem Document.agrees : (d : Document) → {fuel depth : Nat} → {rest : Text} →
    2 * d.text.length ≤ fuel → Ends rest →
      Agrees (readValue false fuel depth (d.text ++ rest)) (d.read depth) rest
  -- Two steps for each character are enough: one for a value, one for the list it is in.
  | d, 0, _, _, enough, _ => by
      have some := d.length_pos
      omega
  | .atom a, fuel + 1, depth, _, _, ends => readValue_atom ends fuel depth
  | .string q, fuel + 1, depth, rest, _, _ => by
      simp only [Document.text, List.cons_append, List.append_assoc, List.nil_append]
      exact readValue_string q rest
  | .emptyArray space, fuel + 1, depth, rest, _, _ => by
      simp only [Document.text, List.cons_append, List.append_assoc, List.nil_append]
      exact readValue_emptyArray space rest
  | .array space items, fuel + 1, depth, rest, enough, _ => by
      simp only [Document.text, List.length_append, List.length_cons, List.length_nil] at enough
      simp only [Document.text, List.cons_append, List.append_assoc, List.nil_append]
      exact readValue_array space (items.starts.append _) fun depth => items.agrees (by omega)
  | .emptyObject space, fuel + 1, depth, rest, _, _ => by
      simp only [Document.text, List.cons_append, List.append_assoc, List.nil_append]
      exact readValue_emptyObject space rest
  | .object space members, fuel + 1, depth, rest, enough, _ => by
      simp only [Document.text, List.length_append, List.length_cons, List.length_nil] at enough
      simp only [Document.text, List.cons_append, List.append_assoc, List.nil_append]
      obtain ⟨tail, spelled⟩ := members.exists_text
      exact readValue_object space ⟨tail ++ '}' :: rest, by rw [spelled]; rfl⟩
        fun depth => members.agrees (by omega)

theorem Items.agrees : (items : Items) → {fuel depth : Nat} → {rest : Text} →
    2 * items.text.length + 1 ≤ fuel →
      Agrees (readItems false fuel depth (items.text ++ ']' :: rest)) (items.read depth) rest
  | .last item ending, fuel + 1, depth, rest, enough => by
      simp only [Items.text, List.length_append] at enough
      simp only [Items.text, List.append_assoc]
      exact readItems_last (item.agrees (by omega) (ends_ending ending (.inl rfl) rest))
  | .more item comma items, fuel + 1, depth, rest, enough => by
      simp only [Items.text, Gap.text, List.length_append, List.length_cons] at enough
      simp only [Items.text, List.append_assoc]
      exact readItems_more (item.agrees (by omega) (ends_comma comma _)) (items.starts.append _)
        (items.agrees (by omega))

theorem Members.agrees : (members : Members) → {fuel depth : Nat} → {rest : Text} →
    2 * members.text.length + 1 ≤ fuel →
      Agrees (readMembers false fuel depth (members.text ++ '}' :: rest)) (members.read depth) rest
  | .last key colon value ending, fuel + 1, depth, rest, enough => by
      simp only [Members.text, List.length_append] at enough
      simp only [Members.text, List.append_assoc]
      exact readMembers_last value.starts
        (value.agrees (by omega) (ends_ending ending (.inr rfl) rest))
  | .more key colon value comma members, fuel + 1, depth, rest, enough => by
      simp only [Members.text, Gap.text, List.length_append, List.length_cons] at enough
      simp only [Members.text, List.append_assoc]
      obtain ⟨tail, spelled⟩ := members.exists_text
      exact readMembers_more value.starts (value.agrees (by omega) (ends_comma comma _))
        ⟨tail ++ '}' :: rest, by rw [spelled]; rfl⟩ (members.agrees (by omega))
end

/-! ## From values to trees -/

theorem exists_space {t t' : Text} (h : skipSpace t = t') : ∃ space : Space, t = space.text ++ t' :=
  ⟨⟨t.takeWhile isSpace, fun _ member => List.mem_takeWhile_imp member⟩,
    by rw [← h]; exact List.takeWhile_append_dropWhile.symm⟩

/-- An ending without a comma. -/
def Space.ending (space : Space) : Ending := ⟨space, none⟩

/-- What is read is the text of a tree without commas before closing brackets. -/
theorem document_cases : ReadCases false (fun _ _ t _ rest => ∃ d : Document, t = d.plain.text ++ rest)
    (fun _ _ t _ rest => ∃ tree : Items, t = tree.plain.text ++ ']' :: rest)
    (fun _ _ t _ rest => ∃ tree : Members, t = tree.plain.text ++ '}' :: rest) where
  string read := by
    obtain ⟨q, rfl, -⟩ := exists_quoted read
    exact ⟨.string q, by simp [Document.plain, Document.text]⟩
  emptyArray closing := by
    obtain ⟨space, rfl⟩ := exists_space closing
    exact ⟨.emptyArray space, by simp [Document.plain, Document.text]⟩
  array _ items := by
    obtain ⟨tree, spelled⟩ := items
    obtain ⟨space, rfl⟩ := exists_space spelled
    exact ⟨.array space tree, by simp [Document.plain, Document.text]⟩
  emptyObject closing := by
    obtain ⟨space, rfl⟩ := exists_space closing
    exact ⟨.emptyObject space, by simp [Document.plain, Document.text]⟩
  object _ members := by
    obtain ⟨tree, spelled⟩ := members
    obtain ⟨space, rfl⟩ := exists_space spelled
    exact ⟨.object space tree, by simp [Document.plain, Document.text]⟩
  atom _ _ _ h := by
    obtain ⟨a, rfl, -⟩ := exists_atom h
    exact ⟨.atom a, rfl⟩
  lastItem value closing := by
    obtain ⟨d, rfl⟩ := value
    obtain ⟨space, rfl⟩ := exists_space closing
    refine ⟨.last d space.ending, ?_⟩
    simp [Items.plain, Items.text, Ending.plain, Ending.text, Space.ending]
  moreItems value comma items := by
    obtain ⟨d, rfl⟩ := value
    obtain ⟨tree, spelled⟩ := items
    obtain ⟨before, rfl⟩ := exists_space comma
    obtain ⟨space, rfl⟩ := exists_space spelled
    exact ⟨.more d ⟨before, space⟩ tree, by simp [Items.plain, Items.text, Gap.text]⟩
  lastMember read colon value closing := by
    obtain ⟨key, rfl, -⟩ := exists_quoted read
    obtain ⟨d, spelled⟩ := value
    obtain ⟨before, rfl⟩ := exists_space colon
    obtain ⟨between, rfl⟩ := exists_space spelled
    obtain ⟨space, rfl⟩ := exists_space closing
    refine ⟨.last key ⟨before, between⟩ d space.ending, ?_⟩
    simp [Members.plain, Members.text, keyText, Gap.text, Ending.plain, Ending.text, Space.ending]
  moreMembers read colon value comma members := by
    obtain ⟨key, rfl, -⟩ := exists_quoted read
    obtain ⟨d, spelled⟩ := value
    obtain ⟨tree, others⟩ := members
    obtain ⟨before, rfl⟩ := exists_space colon
    obtain ⟨between, rfl⟩ := exists_space spelled
    obtain ⟨before', rfl⟩ := exists_space comma
    obtain ⟨space, rfl⟩ := exists_space others
    refine ⟨.more key ⟨before, between⟩ d ⟨before', space⟩ tree, ?_⟩
    simp [Members.plain, Members.text, keyText, Gap.text]

theorem exists_document {fuel depth : Nat} {t rest : Text} {v : Json}
    (h : readValue false fuel depth t = .ok (v, rest)) : ∃ d : Document, t = d.plain.text ++ rest :=
  (document_cases.all fuel).1 h

end Recast.Json
