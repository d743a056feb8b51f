import Recast.Proofs.Json.Accepted
import Recast.Proofs.Yaml.Steps
import Recast.Yaml.Printer

/-! # Going through a written document

A value makes the same tokens wherever it stands and whatever follows, unless one of its keys
is too long to be read as one.
-/

namespace Recast.Yaml

open Text Cursor Scan

/-! ## Parts of documents -/

/-- From a state on some text makes these tokens, last first, or is refused. What follows is next
    at column `k`. -/
def Yields (made? : Option (List Token)) (count : Nat) (s : Scan) (next : Text) (k : Nat)
    (indent : Int) (outer : List Int) (tokens : List Token) : Prop :=
  match made? with
  | some made =>
    ∃ n ≤ count, ∃ s', Reaches n s s' ∧ Arrives s' next k true indent outer (made ++ tokens)
  | none => Fails s

section

variable {made? more? : Option (List Token)} {m n : Nat} {s s' : Scan} {next rest text : Text}
  {k k' column : Nat} {indent : Int} {outer : List Int} {tokens : List Token} {token start : Token}

theorem Yields.of_reaches (h : Yields made? n s' next k indent outer tokens)
    (reaches : Reaches m s s') : Yields made? (m + n) s next k indent outer tokens := by
  cases made? with
  | none => exact reaches.fails h
  | some made =>
      obtain ⟨i, le, s'', later, arrives⟩ := h
      exact ⟨m + i, Nat.add_le_add_left le m, s'', reaches.trans later, arrives⟩

theorem Yields.mono (h : Yields made? m s next k indent outer tokens) (le : m ≤ n) :
    Yields made? n s next k indent outer tokens := by
  cases made? with
  | none => exact h
  | some made =>
      obtain ⟨i, le', later⟩ := h
      exact ⟨i, Nat.le_trans le' le, later⟩

/-- The tokens of two parts, the second of which comes later. -/
def joined (made? more? : Option (List Token)) : Option (List Token) :=
  made?.bind fun made => more?.map (· ++ made)

/-- The tokens of a collection at a column, which shows by two more unless it is open already. -/
def enclosed (indent : Int) (column : Nat) (start : Token) (made : List Token) : List Token :=
  if indent < column then .blockEnd :: (made ++ [start]) else made

theorem Yields.trans (h : Yields made? m s next k indent outer tokens)
    (later : ∀ s' tokens, Arrives s' next k true indent outer tokens →
      Yields more? n s' rest k' indent outer tokens) :
    Yields (joined made? more?) (m + n) s rest k' indent outer tokens := by
  cases made? with
  | none => exact h
  | some made =>
      obtain ⟨i, le, s', reaches, arrives⟩ := h
      have both := ((later s' _ arrives).of_reaches reaches).mono (Nat.add_le_add_right le n)
      cases more? with
      | none => exact both
      | some more =>
          simpa only [joined, Yields, Option.bind_some, Option.map_some, List.append_assoc] using both

theorem Yields.behind (pre : List Token)
    (h : Yields made? n s next k indent outer (pre ++ tokens)) :
    Yields (made?.map (· ++ pre)) n s next k indent outer tokens := by
  cases made? with
  | none => exact h
  | some made => simpa only [Yields, Option.map_some, List.append_assoc] using h

/-- A collection ends in front of what follows it. -/
theorem Yields.close (ends : Ends indent text next k) (inside : indent ≤ column)
    (h : Yields made? n s next k column (around indent column outer)
      (begun indent column start tokens)) :
    Yields (made?.map (enclosed indent column start)) n s next k indent outer tokens := by
  by_cases opens : indent < column
  · rw [around, if_pos opens, begun, if_pos opens] at h
    cases made? with
    | none => exact h
    | some made =>
        obtain ⟨i, le, s', reaches, arrives⟩ := h
        have left (some : next ≠ []) : (k : Int) < column := by
          cases ends with
          | finish => exact absurd rfl some
          | line _ left => exact Int.lt_of_le_of_lt (left.resolve_left some) opens
        have popped := arrives.pop left (by omega)
        refine ⟨i, le, s', reaches, ?_⟩
        simpa [enclosed, opens] using popped
  · have same : indent = column := Int.le_antisymm inside (Int.not_lt.mp opens)
    rw [around, if_neg opens, begun, if_neg opens, ← same] at h
    have same : enclosed indent column start = id := funext fun made => if_neg opens
    simpa [same] using h

end

/-! ## Collections -/

/-- An item or entry at column `k`, which may be the first of its collection. -/
def ElementYields (start : Token) (k : Nat) (text : Text) : Prop :=
  ∃ made?, ∀ {s : Scan} {indent : Int} {outer : List Int} {tokens : List Token}
    {after next : Text} {k' : Nat}, indent ≤ k →
    Arrives s (text ++ after) k true indent outer tokens → Ends k after next k' →
    Yields made? text.length s next k' k (around indent k outer) (begun indent k start tokens)

/-- The items or entries after the first. -/
def RestYields (k : Nat) (text : Text) : Prop :=
  ∃ made?, ∀ {after next : Text} {k' : Nat}, Ends k after next k' →
    ∃ next₁ k₁, Ends k (text ++ after) next₁ k₁ ∧
      ∀ {s : Scan} {outer : List Int} {tokens : List Token},
        Arrives s next₁ k₁ true k outer tokens →
        Yields made? text.length s next k' k outer tokens

/-- A collection at column `k` inside one at column `indent`. -/
def CollectionYields (indent : Int) (k : Nat) (text : Text) : Prop :=
  ∃ made?, ∀ {s : Scan} {outer : List Int} {tokens : List Token} {after next : Text} {k' : Nat},
    Arrives s (text ++ after) k true indent outer tokens → Ends indent after next k' →
    Yields made? text.length s next k' indent outer tokens

section

variable {start : Token} {k : Nat} {text more : Text} {indent : Int}

theorem restYields_nil : RestYields k [] := by
  refine ⟨some [], fun ends => ⟨_, _, ends, fun arrives => ?_⟩⟩
  exact ⟨0, Nat.le_refl 0, _, .refl _, arrives⟩

theorem ElementYields.cons (element : ElementYields start k text) (rest : RestYields k more)
    (solid : ∀ after, Solid (text ++ after)) : RestYields k (newLine k ++ text ++ more) := by
  obtain ⟨made?, element⟩ := element
  obtain ⟨more?, rest⟩ := rest
  refine ⟨joined made? more?, fun {after next k'} ends => ?_⟩
  obtain ⟨next₁, k₁, ends₁, rest⟩ := rest ends
  refine ⟨text ++ (more ++ after), k, ?_, fun {s outer tokens} arrives => ?_⟩
  · rw [List.append_assoc, List.append_assoc]
    exact .line (solid _) (.inr (Int.le_refl _))
  · have here := element (Int.le_refl _) arrives ends₁
    simp only [around, begun, Int.lt_irrefl, if_false] at here
    refine (here.trans fun s' tokens arrives => rest arrives).mono ?_
    simp only [List.length_append]
    omega

theorem ElementYields.collection (element : ElementYields start k text) (rest : RestYields k more)
    (inside : indent ≤ k) : CollectionYields indent k (text ++ more) := by
  obtain ⟨made?, element⟩ := element
  obtain ⟨more?, rest⟩ := rest
  refine ⟨(joined made? more?).map (enclosed indent k start),
    fun {s outer tokens after next k'} arrives ends => ?_⟩
  have ends' : Ends k after next k' := by
    cases ends with
    | finish => exact .finish
    | line solid left => exact .line solid (left.imp_right (Int.le_trans · inside))
  obtain ⟨next₁, k₁, ends₁, rest⟩ := rest ends'
  rw [List.append_assoc] at arrives
  have whole := (element inside arrives ends₁).trans fun s' tokens arrives => rest arrives
  rw [List.length_append]
  exact whole.close ends inside

end

/-! ## Values -/

namespace Place

/-- The column of the collection around a value. -/
def around (indent : Nat) : Place → Int
  | .root => -1
  | _ => indent

/-- May a value be a key? -/
def allows : Place → Bool
  | .afterKey => false
  | _ => true

/-- The columns at which a value may start. -/
def Fits (indent column : Nat) : Place → Prop
  | .root => indent = 0 ∧ column = 0
  | .afterKey => indent ≤ column
  | .afterIndicator => column = indent + 1

/-- The column of the items or entries of a value. -/
def inner (flush : Bool) (indent : Nat) : Place → Nat
  | .root => indent
  | .afterKey => if flush then indent else indent + 2
  | .afterIndicator => indent + 2

end Place

/-- A value at a place. -/
def ValueYields (place : Place) (indent : Nat) (text : Text) : Prop :=
  ∃ made?, ∀ {c : Cursor} {outer : List Int} {tokens : List Token} {after next : Text} {k' : Nat},
    c.rest = text ++ after → place.Fits indent c.column → Ends (place.around indent) after next k' →
    Yields made? text.length (between c place.allows (place.around indent) outer tokens) next k'
      (place.around indent) outer tokens

section

variable {place : Place} {indent k : Nat} {text w : Text} {token token' : Token} {first last : Char}

theorem arrives_gap {c : Cursor} (outer : List Int) (tokens : List Token)
    (h : c.rest = place.gap ++ text) (solid : Solid text) (fits : place.Fits indent c.column) :
    ∃ k : Nat, place.around indent ≤ k ∧ (place.allows = true → place.around indent < k) ∧
      Arrives (between c place.allows (place.around indent) outer tokens) text k place.allows
        (place.around indent) outer tokens := by
  have resting := resting_between c place.allows (place.around indent) outer tokens
  cases place with
  | root =>
      have left : (-1 : Int) < ((c.column + 0 : Nat) : Int) := by omega
      exact ⟨_, Int.le_of_lt left, fun _ => left, resting.arrives_spaces (k := 0) nofun h solid⟩
  | afterKey =>
      have left : (indent : Int) ≤ ((c.column + 1 : Nat) : Int) :=
        Int.ofNat_le.mpr (Nat.le_succ_of_le fits)
      exact ⟨_, left, nofun, resting.arrives_spaces (k := 1) nofun h solid⟩
  | afterIndicator =>
      have left : (indent : Int) < ((c.column + 1 : Nat) : Int) := by
        rw [show c.column = indent + 1 from fits]
        omega
      exact ⟨_, Int.le_of_lt left, fun _ => left, resting.arrives_spaces (k := 1) nofun h solid⟩

theorem arrives_opening (flush : Bool) {c : Cursor} (outer : List Int) (tokens : List Token)
    (h : c.rest = place.opening (place.inner flush indent) ++ text) (solid : Solid text)
    (fits : place.Fits indent c.column) :
    Arrives (between c place.allows (place.around indent) outer tokens) text
      (place.inner flush indent) true (place.around indent) outer tokens := by
  have resting := resting_between c place.allows (place.around indent) outer tokens
  cases place with
  | root =>
      obtain ⟨none, start⟩ := fits
      have here := resting.arrives_spaces (k := 0) nofun h solid
      rwa [show (between c _ _ outer tokens).cursor.column + 0 = indent from start.trans none.symm] at here
  | afterKey => exact resting.arrives_newLine h solid
  | afterIndicator =>
      have here := resting.arrives_spaces (k := 1) nofun h solid
      rwa [show (between c _ _ outer tokens).cursor.column + 1 = indent + 2 from
        congrArg (· + 1) fits] at here

theorem valueYields_scalar (written : Written (some (indent + 2)) w token) :
    ValueYields place indent (place.gap ++ w) := by
  refine ⟨some [token], fun {c outer tokens after next k'} h fits ends => ?_⟩
  rw [List.append_assoc] at h
  obtain ⟨k, inside, free, arrives⟩ := arrives_gap outer tokens h (written.solid _) fits
  have deep : ∀ fold, some (indent + 2) = some fold → place.around indent + 1 ≤ fold ∧ 0 < fold := by
    rintro fold ⟨⟩
    refine ⟨?_, Nat.succ_pos _⟩
    cases place <;> simp only [Place.around] <;> omega
  obtain ⟨s', reaches, arrives⟩ := arrives.scalar written deep inside free ends
  refine ⟨1, ?_, s', reaches, arrives⟩
  have some := List.length_pos_iff.mpr written.ne_nil
  rw [List.length_append]
  omega

theorem valueYields_empty (empty : Empty first last token token') :
    ValueYields place indent (place.gap ++ [first, last]) := by
  refine ⟨some [token', token], fun {c outer tokens after next k'} h fits ends => ?_⟩
  rw [List.append_assoc] at h
  have solid : Solid ([first, last] ++ after) := by
    cases empty <;> exact solid_cons (by decide) _
  obtain ⟨k, inside, free, arrives⟩ := arrives_gap outer tokens h solid fits
  obtain ⟨s', reaches, arrives⟩ := arrives.empty empty inside free ends
  refine ⟨2, ?_, s', reaches, arrives⟩
  rw [List.length_append]
  exact Nat.le_add_left _ _

theorem valueYields_collection (flush : Bool)
    (collection : CollectionYields (place.around indent) (place.inner flush indent) text)
    (solid : ∀ after, Solid (text ++ after)) :
    ValueYields place indent (place.opening (place.inner flush indent) ++ text) := by
  obtain ⟨made?, collection⟩ := collection
  refine ⟨made?, fun {c outer tokens after next k'} h fits ends => ?_⟩
  rw [List.append_assoc] at h
  have arrives := arrives_opening flush outer tokens h (solid after) fits
  refine (collection arrives ends).mono ?_
  rw [List.length_append]
  exact Nat.le_add_left _ _

/-! ## Items and entries -/

theorem ValueYields.item (value : ValueYields .afterIndicator k text)
    (parted : ∀ after, isParted (text ++ after) = true) :
    ElementYields .blockSequenceStart k ('-' :: text) := by
  obtain ⟨made?, value⟩ := value
  refine ⟨made?.map (· ++ [.blockEntry]), fun {s indent outer tokens after next k'} inside h ends => ?_⟩
  obtain ⟨c, rest, column, reaches⟩ := h.indicator .item inside (parted after)
  rw [List.length_cons, Nat.add_comm]
  exact Yields.of_reaches (Yields.behind [.blockEntry] (value rest column ends)) reaches

theorem ValueYields.member (written : Written none w token) (flat : ∀ c ∈ w, endsLine c = false)
    (value : ValueYields .afterKey k text) (parted : ∀ after, isParted (text ++ after) = true) :
    ElementYields .blockMappingStart k (w ++ ':' :: text) := by
  obtain ⟨made?, value⟩ := value
  refine ⟨if w.length ≤ Scan.maxKeyLength then made?.map (· ++ [.value, token, .key]) else none,
    fun {s indent outer tokens after next k'} inside h ends => ?_⟩
  rw [List.append_assoc, List.cons_append] at h
  split
  · rename_i short
    obtain ⟨c, rest, column, reaches⟩ := h.key written flat inside (parted after) short
    refine Yields.mono
      (Yields.of_reaches (Yields.behind [.value, token, .key] (value rest column ends)) reaches) ?_
    have some := List.length_pos_iff.mpr written.ne_nil
    rw [List.length_append, List.length_cons]
    omega
  · rename_i long
    exact h.key_fails written flat inside (parted after) (Nat.not_le.mp long)

/-- The value of a marked key stands on a line of its own. -/
theorem ValueYields.markedMember (written : Written (some (k + 2)) w token)
    (value : ValueYields .afterIndicator k text) (parted : ∀ after, isParted (text ++ after) = true) :
    ElementYields .blockMappingStart k ('?' :: ' ' :: w ++ newLine k ++ ':' :: text) := by
  obtain ⟨made?, value⟩ := value
  refine ⟨made?.map (· ++ [.value, token, .key]),
    fun {s indent outer tokens after next k'} inside h ends => ?_⟩
  have apart : '?' :: ' ' :: w ++ newLine k ++ ':' :: text ++ after =
      '?' :: ' ' :: (w ++ (newLine k ++ ':' :: (text ++ after))) := by simp
  rw [apart] at h
  obtain ⟨c, rest, column, marked⟩ := h.indicator .key inside rfl
  have solid : Solid (':' :: (text ++ after)) := solid_cons (by decide) _
  have resting := resting_between c true k (around indent k outer)
    (.key :: begun indent k .blockMappingStart tokens)
  have there := resting.arrives_spaces (k := 1) nofun rest (written.solid _)
  have left : (k : Int) < ((c.column + 1 : Nat) : Int) := by omega
  have deep : ∀ fold, some (k + 2) = some fold → (k : Int) + 1 ≤ fold ∧ 0 < fold := by
    rintro fold ⟨⟩
    omega
  obtain ⟨s', spelled, behind⟩ := there.scalar written deep (Int.le_of_lt left) (fun _ => left)
    (.line solid (.inr (Int.le_refl _)))
  obtain ⟨c', rest', column', colon⟩ := behind.indicator .value (Int.le_refl _) (parted after)
  simp only [Scan.around, begun, Int.lt_irrefl, if_false] at colon
  have reaches := marked.trans (spelled.trans colon)
  refine Yields.mono
    (Yields.of_reaches (Yields.behind [.value, token, .key] (value rest' column' ends)) reaches) ?_
  simp only [List.length_append, List.length_cons]
  omega

end

/-! ## Whole values -/

theorem parted_writeValue {place : Place} (within : place ≠ .root) (indent column : Nat) (v : Json)
    (after : Text) : isParted (writeValue place indent column v ++ after) = true := by
  cases place with
  | root => exact absurd rfl within
  | afterKey | afterIndicator =>
      cases v with
      | array items => cases items <;> simp [writeValue] <;> rfl
      | object members => cases members <;> simp [writeValue] <;> rfl
      | _ =>
          simp only [writeValue]
          rfl

theorem Place.around_le_inner (place : Place) (flush : Bool) (indent : Nat) :
    place.around indent ≤ place.inner flush indent := by
  cases place with
  | root => exact Int.le_trans (b := 0) (by simp [around]) (Int.natCast_nonneg _)
  | afterKey =>
      simp only [around, inner]
      split <;> omega
  | afterIndicator =>
      simp only [around, inner]
      omega

theorem written_word {fold? : Option Nat} {w : Text} (readable : Readable [w]) :
    Written fold? w (.scalar w true) := by
  have written : Written fold? (plainRuns fold? 0 [w]) _ := .plain readable 0
  cases readable.words with
  | last word =>
      rw [plainRuns_word word] at written
      simpa [plainRuns] using written

theorem readable_word {w : Text} (allowed : allowsPlain w = true) (some : w ≠ [])
    (one : runs w = [w]) : Readable [w] :=
  one ▸ readable_runs allowed some

theorem exists_written_key {key : Text} (short : isShortKey key = true) (k : Nat) :
    isMultiline key = false ∧
      ∃ token, Written none ((Style.ofText key).write none k key) token := by
  simp only [isShortKey, Bool.and_eq_true, Bool.not_eq_true'] at short
  have deep : ∀ indent, (none : Option Nat) = some indent → 0 < indent := by
    intro indent known
    cases known
  exact ⟨short.2, exists_written deep (fun lines => by rw [short.2] at lines; cases lines) k⟩

theorem exists_written_folded (indent column : Nat) (t : Text) :
    ∃ token, Written (some (indent + 2))
      ((Style.ofText t).write (some (indent + 2)) column t) token := by
  refine exists_written ?_ (fun _ => rfl) column
  rintro fold ⟨⟩
  exact Nat.succ_pos _

theorem solid_writeMember (k : Nat) (member : Text × Json) (after : Text) :
    Solid (writeMember k member ++ after) := by
  obtain ⟨key, value⟩ := member
  rw [writeMember]
  split
  · rename_i short
    obtain ⟨-, token, written⟩ := exists_written_key short k
    rw [List.append_assoc]
    exact written.solid _
  · exact solid_cons (by decide) _

theorem elementYields_member {k : Nat} {member : Text × Json}
    (yields : ∀ place column, ValueYields place k (writeValue place k column member.2)) :
    ElementYields .blockMappingStart k (writeMember k member) := by
  obtain ⟨key, value⟩ := member
  rw [writeMember]
  split
  · rename_i short
    obtain ⟨single, token, written⟩ := exists_written_key short k
    exact (yields .afterKey _).member written (flat_write single k)
      (parted_writeValue (by decide) _ _ _)
  · obtain ⟨token, written⟩ := exists_written_folded k (k + 2) key
    exact (yields .afterIndicator _).markedMember written (parted_writeValue (by decide) _ _ _)

theorem elementYields_item {k : Nat} {item : Json}
    (yields : ValueYields .afterIndicator k (writeValue .afterIndicator k (k + 1) item)) :
    ElementYields .blockSequenceStart k ('-' :: writeValue .afterIndicator k (k + 1) item) :=
  yields.item (parted_writeValue (by decide) _ _ _)

mutual
/-- Every value without binary64 numbers can be gone through like this. -/
theorem valueYields (place : Place) (indent column : Nat) (v : Json)
    (precise : v.everywhere Json.exactNumber = true) :
    ValueYields place indent (writeValue place indent column v) := by
  cases v with
  | null =>
      simp only [writeValue]
      exact valueYields_scalar (written_word (readable_word (by decide) nofun (by decide)))
  | bool b =>
      simp only [writeValue]
      cases b <;>
        exact valueYields_scalar (written_word (readable_word (by decide) nofun (by decide)))
  | int n =>
      simp only [writeValue]
      exact valueYields_scalar (written_word (readable_ofInt n))
  | float x => cases precise
  | string t =>
      obtain ⟨token, written⟩ := exists_written_folded indent (column + place.gap.length) t
      simp only [writeValue]
      exact valueYields_scalar written
  | array items =>
      cases items with
      | nil =>
          simp only [writeValue]
          exact valueYields_empty .array
      | cons item items =>
          simp only [Json.everywhere, Json.everywhereItems, Bool.and_eq_true] at precise
          have first := elementYields_item (valueYields .afterIndicator (place.inner true indent)
            (place.inner true indent + 1) item precise.1)
          have later := restYields_items (place.inner true indent) items precise.2
          have whole := first.collection later (place.around_le_inner true indent)
          have inner : (if place = .afterIndicator then indent + 2 else indent) =
              place.inner true indent := by
            cases place <;> rfl
          simp only [writeValue, inner, List.append_assoc]
          exact valueYields_collection true whole fun _ => solid_cons (by decide) _
  | object members =>
      cases members with
      | nil =>
          simp only [writeValue]
          exact valueYields_empty .object
      | cons member members =>
          simp only [Json.everywhere, Json.everywhereMembers, Bool.and_eq_true] at precise
          have smaller := Json.sizeOf_value_lt member
          have first := elementYields_member fun before column =>
            valueYields before (place.inner false indent) column member.2 precise.1
          have later := restYields_members (place.inner false indent) members precise.2
          have whole := first.collection later (place.around_le_inner false indent)
          have inner : (if place = .root then indent else indent + 2) =
              place.inner false indent := by
            cases place <;> rfl
          simp only [writeValue, inner, List.append_assoc]
          refine valueYields_collection false whole fun after => ?_
          rw [List.append_assoc]
          exact solid_writeMember _ member _
termination_by sizeOf v
decreasing_by
  all_goals subst_vars
  all_goals simp only [Json.array.sizeOf_spec, Json.object.sizeOf_spec, List.cons.sizeOf_spec]
  all_goals omega

theorem restYields_items (k : Nat) (items : List Json)
    (precise : Json.everywhereItems Json.exactNumber items = true) :
    RestYields k (writeItems k items) := by
  cases items with
  | nil => exact restYields_nil
  | cons item items =>
      simp only [Json.everywhereItems, Bool.and_eq_true] at precise
      have first := elementYields_item (valueYields .afterIndicator k (k + 1) item precise.1)
      have later := restYields_items k items precise.2
      rw [writeItems]
      exact first.cons later fun after => solid_cons (by decide) _
termination_by sizeOf items

theorem restYields_members (k : Nat) (members : List (Text × Json))
    (precise : Json.everywhereMembers Json.exactNumber members = true) :
    RestYields k (writeMembers k members) := by
  cases members with
  | nil => exact restYields_nil
  | cons member members =>
      simp only [Json.everywhereMembers, Bool.and_eq_true] at precise
      have smaller := Json.sizeOf_value_lt member
      have first := elementYields_member fun place column =>
        valueYields place k column member.2 precise.1
      have later := restYields_members k members precise.2
      rw [writeMembers]
      exact first.cons later (solid_writeMember k member)
termination_by sizeOf members
decreasing_by
  all_goals subst_vars
  all_goals simp only [List.cons.sizeOf_spec]
  all_goals omega
end

end Recast.Yaml
