import Recast.Proofs.Json.Written

/-! # Values that are read

A value that is read has no integer with too many digits, no repeated key, and no more
containers inside each other than may be opened. One without binary64 numbers reads as
itself again once it is written.
-/

namespace Recast.Json

open Text

/-! ## Parts of a value -/

theorem everywhereItems_iff {p : Json → Bool} {items : List Json} :
    everywhereItems p items = true ↔ ∀ item ∈ items, everywhere p item = true := by
  induction items with
  | nil => simp [everywhereItems]
  | cons item items ih => simp [everywhereItems, ih]

theorem everywhereMembers_iff {p : Json → Bool} {members : List (Text × Json)} :
    everywhereMembers p members = true ↔ ∀ member ∈ members, everywhere p member.2 = true := by
  induction members with
  | nil => simp [everywhereMembers]
  | cons member members ih => simp [everywhereMembers, ih]

mutual
theorem everywhere_mono {p q : Json → Bool} (imp : ∀ v, p v = true → q v = true) (v : Json)
    (h : v.everywhere p = true) : v.everywhere q = true := by
  cases v with
  | null | bool | int | float | string => exact imp _ h
  | array items => exact everywhereItems_mono imp items h
  | object members => exact everywhereMembers_mono imp members h
termination_by sizeOf v

theorem everywhereItems_mono {p q : Json → Bool} (imp : ∀ v, p v = true → q v = true)
    (items : List Json) (h : everywhereItems p items = true) : everywhereItems q items = true := by
  cases items with
  | nil => rfl
  | cons item items =>
      simp only [everywhereItems, Bool.and_eq_true] at h ⊢
      exact ⟨everywhere_mono imp item h.1, everywhereItems_mono imp items h.2⟩
termination_by sizeOf items

theorem everywhereMembers_mono {p q : Json → Bool} (imp : ∀ v, p v = true → q v = true)
    (members : List (Text × Json)) (h : everywhereMembers p members = true) :
    everywhereMembers q members = true := by
  cases members with
  | nil => rfl
  | cons member members =>
      simp only [everywhereMembers, Bool.and_eq_true] at h ⊢
      have smaller := sizeOf_value_lt member
      exact ⟨everywhere_mono imp member.2 h.1, everywhereMembers_mono imp members h.2⟩
termination_by sizeOf members
decreasing_by
  all_goals subst_vars
  all_goals simp only [List.cons.sizeOf_spec]
  all_goals omega
end

theorem nestingItems_le_iff {items : List Json} {depth : Nat} :
    nestingItems items ≤ depth ↔ ∀ item ∈ items, nesting item ≤ depth := by
  induction items with
  | nil => simp [nestingItems]
  | cons item items ih => simp only [nestingItems, Nat.max_le, ih, List.forall_mem_cons]

theorem nestingMembers_le_iff {members : List (Text × Json)} {depth : Nat} :
    nestingMembers members ≤ depth ↔ ∀ member ∈ members, nesting member.2 ≤ depth := by
  induction members with
  | nil => simp [nestingMembers]
  | cons member members ih => simp only [nestingMembers, Nat.max_le, ih, List.forall_mem_cons]

theorem distinctItems_iff {items : List Json} :
    DistinctItems items ↔ ∀ item ∈ items, Distinct item := by
  induction items with
  | nil => simp [DistinctItems]
  | cons item items ih => simp [DistinctItems, ih]

theorem distinctMembers_iff {members : List (Text × Json)} :
    DistinctMembers members ↔ ∀ member ∈ members, Distinct member.2 := by
  induction members with
  | nil => simp [DistinctMembers]
  | cons member members ih => simp [DistinctMembers, ih]

/-! ## Numbers -/

theorem ofDigitChars_lt {digits : Text} (small : ∀ c ∈ digits, c.toNat - '0'.toNat < 10)
    (start : Nat) : Nat.ofDigitChars 10 digits start < (start + 1) * Nat.pow 10 digits.length := by
  induction digits generalizing start with
  | nil => simp [Nat.ofDigitChars]
  | cons c rest ih =>
      have first := small c List.mem_cons_self
      have later := ih (fun d member => small d (List.mem_cons_of_mem _ member))
        (10 * start + (c.toNat - '0'.toNat))
      rw [Nat.ofDigitChars_cons]
      calc Nat.ofDigitChars 10 rest (10 * start + (c.toNat - '0'.toNat))
          < (10 * start + (c.toNat - '0'.toNat) + 1) * Nat.pow 10 rest.length := later
        _ ≤ ((start + 1) * 10) * Nat.pow 10 rest.length :=
            Nat.mul_le_mul_right _ (by omega)
        _ = (start + 1) * (Nat.pow 10 rest.length * 10) := by
            rw [Nat.mul_assoc, Nat.mul_comm 10]

/-- An integer of few digits, with or without a sign in front. -/
theorem bounded_of_digits {digits : Text} (small : ∀ c ∈ digits, c.toNat - '0'.toNat < 10)
    {limit : Nat} (few : digits.length ≤ limit) (negative : Bool) :
    (if negative then -(Nat.ofDigitChars 10 digits 0 : Int) else Nat.ofDigitChars 10 digits 0).natAbs
      < Nat.pow 10 limit := by
  have value := ofDigitChars_lt small 0
  have most : Nat.pow 10 digits.length ≤ Nat.pow 10 limit := Nat.pow_le_pow_right (by decide) few
  cases negative with
  | false =>
      simp only [Bool.false_eq_true, if_false, Int.natAbs_natCast]
      omega
  | true =>
      simp only [if_true, Int.natAbs_neg, Int.natAbs_natCast]
      omega

theorem isDigit_small {c : Char} (digit : c.isDigit = true) : c.toNat - '0'.toNat < 10 := by
  simp only [Char.isDigit, Bool.and_eq_true, decide_eq_true_eq] at digit
  have most : c.toNat ≤ 57 := digit.2
  have zero : '0'.toNat = 48 := rfl
  omega

/-! ## Values that hold no others -/

theorem numeral_cases {negative : Bool} {whole : Text} {fraction? : Option Text}
    {exponent? : Option Int} {v : Json} (digits : ∀ c ∈ whole, c.isDigit = true)
    (h : numeral negative whole fraction? exponent? = .ok v) :
    (∃ n, v = .int n ∧ n.natAbs < Nat.pow 10 maxDigits) ∨ ∃ x, v = .float x := by
  cases fraction? with
  | some fraction =>
      cases h
      exact .inr ⟨_, rfl⟩
  | none =>
      cases exponent? with
      | some exponent =>
          cases h
          exact .inr ⟨_, rfl⟩
      | none =>
          simp only [numeral] at h
          split at h
          · cases h
          · rename_i few
            cases h
            exact .inl ⟨_, rfl, bounded_of_digits (fun c member => isDigit_small (digits c member))
              (Nat.le_of_not_lt few) negative⟩

/-- What a value that is neither string nor container can be. -/
inductive Single : Json → Prop where
  | null : Single .null
  | bool (b : Bool) : Single (.bool b)
  | int {n : Int} (bounded : n.natAbs < Nat.pow 10 maxDigits) : Single (.int n)
  | float (x : Binary64) : Single (.float x)

theorem single_of_readNumber {t rest : Text} {v : Json} (h : readNumber t = .ok (v, rest)) :
    Single v := by
  obtain ⟨negative, whole, after, -, found, value, -⟩ := readNumber_eq_ok h
  obtain ⟨-, -, all, -⟩ := readWhole_eq_some found
  obtain ⟨n, rfl, bounded⟩ | ⟨x, rfl⟩ := numeral_cases all value
  · exact .int bounded
  · exact .float x

theorem single_of_word {constants : Bool} {t rest : Text} {v : Json}
    (h : readWord? constants t = some (.ok (v, rest))) : Single v := by
  have word {name : Text} {value : Json} (single : Single value)
      (h : ((after? name t).map fun rest => (Except.ok (value, rest) : Except Stop _)) =
        some (.ok (v, rest))) : Single v := by
    obtain ⟨after, -, same⟩ := Option.map_eq_some_iff.mp h
    cases same
    exact single
  have constant {name : Text} {x : Binary64}
      (h : ((after? name t).map fun rest =>
        if constants then (Except.ok (Json.float x, rest) : Except Stop _)
        else .error (.constant name)) = some (.ok (v, rest))) : Single v := by
    obtain ⟨after, -, same⟩ := Option.map_eq_some_iff.mp h
    cases constants with
    | false => cases same
    | true =>
        cases same
        exact .float x
  simp only [readWord?, Option.orElse_eq_orElse, Option.orElse_eq_or, Option.or_eq_some_iff] at h
  rcases h with h | ⟨-, h | ⟨-, h | ⟨-, h | ⟨-, h | ⟨-, h⟩⟩⟩⟩⟩
  · exact word .null h
  · exact word (.bool true) h
  · exact word (.bool false) h
  · exact constant h
  · exact constant h
  · exact constant h

theorem single_of_other {constants : Bool} {t rest : Text} {v : Json}
    (h : (readWord? constants t).getD (readNumber t) = .ok (v, rest)) : Single v := by
  cases found : readWord? constants t with
  | none => exact single_of_readNumber (by simpa [found] using h)
  | some result =>
      rw [found, Option.getD_some] at h
      exact single_of_word (by rw [found, h])

/-! ## All values -/

/-- What holds of every value that is read when `depth` containers may be opened. -/
structure Closed (p : Nat → Json → Prop) : Prop where
  single : ∀ {depth v}, Single v → p depth v
  string : ∀ {depth s}, p depth (.string s)
  array : ∀ {depth items}, (∀ item ∈ items, p depth item) → p (depth + 1) (.array items)
  object : ∀ {depth pairs}, (∀ pair ∈ pairs, p depth pair.2) →
    p (depth + 1) (.object (ofPairs pairs))

section

variable {p : Nat → Json → Prop} {constants : Bool} {t : Text}

theorem Closed.readCases (closed : Closed p) : ReadCases constants (fun _ depth _ v _ => p depth v)
    (fun _ depth _ vs _ => ∀ v ∈ vs, p depth v)
    (fun _ depth _ pairs _ => ∀ pair ∈ pairs, p depth pair.2) where
  string _ := closed.string
  emptyArray _ := closed.array (List.forall_mem_nil _)
  array _ items := closed.array items
  emptyObject _ := closed.object (List.forall_mem_nil _)
  object _ members := closed.object members
  atom _ _ _ h := closed.single (single_of_other h)
  lastItem value _ := List.forall_mem_singleton.mpr value
  moreItems value _ items := List.forall_mem_cons.mpr ⟨value, items⟩
  lastMember _ _ value _ := List.forall_mem_singleton.mpr value
  moreMembers _ _ value _ members := List.forall_mem_cons.mpr ⟨value, members⟩

theorem Closed.parseWith (closed : Closed p) {v : Json} (h : parseWith constants t = .ok v) :
    p maxDepth v := by
  have all {t : Text} (h : readAll constants t = .ok v) : p maxDepth v := by
    simp only [readAll, bind_eq_ok, Prod.exists] at h
    obtain ⟨w, rest, read, h⟩ := h
    split at h
    · cases h
      exact (closed.readCases.all _).1 read
    · cases h
  unfold Json.parseWith at h
  split at h
  · cases h
  · cases read : readAll constants t with
    | error stop =>
        rw [read] at h
        cases h
    | ok w =>
        rw [read] at h
        cases h
        exact all read

theorem Closed.parseLenient (closed : Closed p) {v : Json} (h : parseLenient t = .ok v) :
    p maxDepth v := by
  have first (candidates : List Text) (first? : Option Error)
      (h : firstReadable first? candidates = .ok v) : p maxDepth v := by
    induction candidates generalizing first? with
    | nil => cases h
    | cons candidate rest ih =>
        rw [firstReadable] at h
        split at h
        · rename_i read
          cases h
          exact closed.parseWith read
        · cases h
        · exact ih _ h
  exact first _ _ h

end

/-! ## What they are like -/

theorem closed_bounded : Closed fun _ v => v.everywhere boundedNumber = true where
  single := by
    intro depth v single
    cases single with
    | int bounded => exact bounded_int.mpr bounded
    | _ => rfl
  string := rfl
  array := everywhereItems_iff.mpr
  object := fun all => everywhereMembers_iff.mpr fun _ known => all _ (mem_ofPairs known)

theorem closed_distinct : Closed fun _ v => v.Distinct where
  single := by
    intro depth v single
    cases single <;> trivial
  string := trivial
  array := distinctItems_iff.mpr
  object := fun {_ pairs} all =>
    ⟨nodup_ofPairs pairs, distinctMembers_iff.mpr fun _ known => all _ (mem_ofPairs known)⟩

theorem closed_nesting : Closed fun depth v => v.nesting ≤ depth where
  single := by
    intro depth v single
    cases single <;> exact Nat.zero_le _
  string := Nat.zero_le _
  array := fun all => Nat.succ_le_succ (nestingItems_le_iff.mpr all)
  object := fun all =>
    Nat.succ_le_succ (nestingMembers_le_iff.mpr fun _ known => all _ (mem_ofPairs known))

/-! ## Reading them again -/

mutual
/-- A value is read as it was written when no key comes twice and all its numbers are finite ones
    of the format. -/
theorem reread_self (v : Json) {depth : Nat} (canonical : v.everywhere canonicalNumber = true)
    (finite : v.everywhere finiteNumber = true) (distinct : v.Distinct)
    (shallow : v.nesting ≤ depth) : v.reread depth = some v := by
  cases v with
  | null | bool | int | string => rfl
  | float x =>
      obtain ⟨y, read, same⟩ := readAtom_finite finite
      simp [reread, read, same (of_decide_eq_true canonical), Except.toOption]
  | array items =>
      obtain ⟨inner, rfl⟩ : ∃ inner, depth = inner + 1 :=
        Nat.exists_eq_succ_of_ne_zero (Nat.ne_of_gt (Nat.lt_of_lt_of_le (Nat.succ_pos _) shallow))
      have same := rereadItems_self items canonical finite distinct (Nat.le_of_succ_le_succ shallow)
      simp [reread, deeper?, same]
  | object members =>
      obtain ⟨inner, rfl⟩ : ∃ inner, depth = inner + 1 :=
        Nat.exists_eq_succ_of_ne_zero (Nat.ne_of_gt (Nat.lt_of_lt_of_le (Nat.succ_pos _) shallow))
      have same := rereadMembers_self members canonical finite distinct.2
        (Nat.le_of_succ_le_succ shallow)
      simp [reread, deeper?, same, ofPairs_of_nodup distinct.1]
termination_by sizeOf v

theorem rereadItems_self (items : List Json) {depth : Nat}
    (canonical : everywhereItems canonicalNumber items = true)
    (finite : everywhereItems finiteNumber items = true) (distinct : DistinctItems items)
    (shallow : nestingItems items ≤ depth) : rereadItems depth items = some items := by
  cases items with
  | nil => rfl
  | cons item items =>
      simp only [everywhereItems, Bool.and_eq_true] at canonical finite
      simp only [nestingItems, Nat.max_le] at shallow
      have first := reread_self item canonical.1 finite.1 distinct.1 shallow.1
      have later := rereadItems_self items canonical.2 finite.2 distinct.2 shallow.2
      simp [rereadItems, first, later]
termination_by sizeOf items

theorem rereadMembers_self (members : List (Text × Json)) {depth : Nat}
    (canonical : everywhereMembers canonicalNumber members = true)
    (finite : everywhereMembers finiteNumber members = true) (distinct : DistinctMembers members)
    (shallow : nestingMembers members ≤ depth) : rereadMembers depth members = some members := by
  cases members with
  | nil => rfl
  | cons member members =>
      simp only [everywhereMembers, Bool.and_eq_true] at canonical finite
      simp only [nestingMembers, Nat.max_le] at shallow
      have smaller := sizeOf_value_lt member
      have first := reread_self member.2 canonical.1 finite.1 distinct.1 shallow.1
      have later := rereadMembers_self members canonical.2 finite.2 distinct.2 shallow.2
      simp [rereadMembers, first, later]
termination_by sizeOf members
decreasing_by
  all_goals subst_vars
  all_goals simp only [List.cons.sizeOf_spec]
  all_goals omega
end

theorem reread_exact (v : Json) {depth : Nat} (precise : v.everywhere exactNumber = true)
    (distinct : v.Distinct) (shallow : v.nesting ≤ depth) : v.reread depth = some v := by
  have other (v : Json) (h : exactNumber v = true) :
      canonicalNumber v = true ∧ finiteNumber v = true := by
    cases v with
    | float => cases h
    | _ => exact ⟨rfl, rfl⟩
  exact reread_self v (everywhere_mono (fun v h => (other v h).1) v precise)
    (everywhere_mono (fun v h => (other v h).2) v precise) distinct shallow

/-- A value without binary64 numbers that was read is read again, however it is written. -/
theorem parse_write_of_parseLenient {t : Text} {v : Json} (h : parseLenient t = .ok v)
    (precise : v.everywhere exactNumber = true) (style : Style) :
    parse (write style 0 v) = .ok v := by
  have read := parse_write style (closed_bounded.parseLenient h)
  rw [reread_exact v precise (closed_distinct.parseLenient h) (closed_nesting.parseLenient h)] at read
  cases found : parse (write style 0 v) with
  | error e =>
      rw [found] at read
      cases read
  | ok w =>
      rw [found] at read
      cases read
      rfl

end Recast.Json
