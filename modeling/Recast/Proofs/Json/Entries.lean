import Recast.Proofs.Json.Accepted

/-! # Members that are left

A text may give an object one key twice, and reading keeps one member of the two. So the value
that is read of a written one has fewer members, unless no key comes twice in an object.
-/

namespace Recast.Json

mutual
/-- The number of members of all objects inside. -/
def count : Json → Nat
  | .array items => countItems items
  | .object members => countMembers members
  | _ => 0

def countItems : List Json → Nat
  | [] => 0
  | item :: items => count item + countItems items

def countMembers : List (Text × Json) → Nat
  | [] => 0
  | (_, value) :: members => count value + countMembers members + 1
end

theorem countMembers_cons (member : Text × Json) (members : List (Text × Json)) :
    countMembers (member :: members) = count member.2 + countMembers members + 1 := rfl

theorem countMembers_nil : countMembers [] = 0 := rfl

theorem countMembers_append (before after : List (Text × Json)) :
    countMembers (before ++ after) = countMembers before + countMembers after := by
  induction before with
  | nil => exact (Nat.zero_add _).symm
  | cons member before ih =>
      simp only [List.cons_append, countMembers_cons, ih]
      omega

/-- A key that comes again takes the place of a member. -/
theorem countMembers_put_of_mem {key : Text} {members : List (Text × Json)}
    (known : key ∈ keys members) (value : Json) :
    countMembers (put key value members) < countMembers members + count value + 1 := by
  induction members with
  | nil => simp [keys] at known
  | cons member rest ih =>
      obtain ⟨k, v⟩ := member
      simp only [put_cons]
      split
      · simp only [countMembers_cons]
        omega
      · rename_i other
        have later : key ∈ keys rest := by
          simpa [keys, Ne.symm other] using known
        have := ih later
        simp only [countMembers_cons]
        omega

theorem countMembers_putAll_le (members pairs : List (Text × Json)) :
    countMembers (putAll members pairs) ≤ countMembers members + countMembers pairs := by
  induction pairs generalizing members with
  | nil => exact Nat.le_refl _
  | cons pair rest ih =>
      obtain ⟨key, value⟩ := pair
      have later := ih (put key value members)
      rw [putAll_cons]
      by_cases known : key ∈ keys members
      · have := countMembers_put_of_mem known value
        simp only [countMembers_cons]
        omega
      · rw [put_of_not_mem known, countMembers_append] at later
        rw [put_of_not_mem known]
        simp only [countMembers_cons, countMembers_nil] at later ⊢
        omega

theorem countMembers_putAll_lt {members : List (Text × Json)} (pairs : List (Text × Json))
    (distinct : (keys members).Nodup) (repeated : ¬ (keys (members ++ pairs)).Nodup) :
    countMembers (putAll members pairs) < countMembers members + countMembers pairs := by
  induction pairs generalizing members with
  | nil => exact absurd (by rwa [List.append_nil]) repeated
  | cons pair rest ih =>
      obtain ⟨key, value⟩ := pair
      rw [putAll_cons]
      by_cases known : key ∈ keys members
      · have most := countMembers_putAll_le (put key value members) rest
        have := countMembers_put_of_mem known value
        simp only [countMembers_cons]
        omega
      · have distinct' := nodup_put distinct key value
        rw [put_of_not_mem known] at distinct' ⊢
        have later := ih distinct' (by rwa [List.append_assoc])
        rw [countMembers_append] at later
        simp only [countMembers_cons, countMembers_nil] at later ⊢
        omega

theorem countMembers_ofPairs_le (pairs : List (Text × Json)) :
    countMembers (ofPairs pairs) ≤ countMembers pairs := by
  have := countMembers_putAll_le [] pairs
  rwa [← ofPairs_eq, countMembers_nil, Nat.zero_add] at this

theorem nodup_of_countMembers {pairs : List (Text × Json)}
    (full : countMembers pairs ≤ countMembers (ofPairs pairs)) : (keys pairs).Nodup := by
  by_contra repeated
  have none : (keys []).Nodup := List.nodup_nil
  have := countMembers_putAll_lt pairs none repeated
  rw [← ofPairs_eq, countMembers_nil, Nat.zero_add] at this
  exact absurd full (Nat.not_le.mpr this)

mutual
/-- Reading never finds more members than were written, and finds fewer when a key comes twice. -/
theorem count_reread (v : Json) {depth : Nat} {u : Json} (h : v.reread depth = some u) :
    u.count ≤ v.count ∧ (v.count ≤ u.count → v.Distinct) := by
  cases v with
  | null | bool | int | string =>
      cases h
      exact ⟨Nat.le_refl _, fun _ => trivial⟩
  | float x =>
      have finite : x.isFinite = true := ((isSome_reread (.float x) depth).mp (by rw [h]; rfl)).1
      obtain ⟨y, read, -⟩ := readAtom_finite finite
      rw [reread, read] at h
      cases h
      exact ⟨Nat.le_refl _, fun _ => trivial⟩
  | array items =>
      simp only [reread, Option.bind_eq_bind, Option.bind_eq_some_iff, Option.pure_def,
        Option.some.injEq] at h
      obtain ⟨inner, -, us, read, rfl⟩ := h
      exact countItems_reread items read
  | object members =>
      simp only [reread, Option.bind_eq_bind, Option.bind_eq_some_iff, Option.pure_def,
        Option.some.injEq] at h
      obtain ⟨inner, -, us, read, rfl⟩ := h
      obtain ⟨fewer, distinct, named⟩ := countMembers_reread members read
      have kept := countMembers_ofPairs_le us
      refine ⟨Nat.le_trans kept fewer, fun full => ⟨?_, distinct (Nat.le_trans full kept)⟩⟩
      have nodup := nodup_of_countMembers (Nat.le_trans fewer full)
      rwa [named] at nodup
termination_by sizeOf v

theorem countItems_reread (items : List Json) {depth : Nat} {us : List Json}
    (h : rereadItems depth items = some us) :
    countItems us ≤ countItems items ∧ (countItems items ≤ countItems us → DistinctItems items) := by
  cases items with
  | nil =>
      cases h
      exact ⟨Nat.le_refl _, fun _ => trivial⟩
  | cons item items =>
      simp only [rereadItems, Option.bind_eq_bind, Option.bind_eq_some_iff, Option.pure_def,
        Option.some.injEq] at h
      obtain ⟨u, first, us, later, rfl⟩ := h
      obtain ⟨fewer, distinct⟩ := count_reread item first
      obtain ⟨fewer', distinct'⟩ := countItems_reread items later
      simp only [countItems]
      exact ⟨by omega, fun full => ⟨distinct (by omega), distinct' (by omega)⟩⟩
termination_by sizeOf items

theorem countMembers_reread (members : List (Text × Json)) {depth : Nat} {us : List (Text × Json)}
    (h : rereadMembers depth members = some us) :
    countMembers us ≤ countMembers members ∧
      (countMembers members ≤ countMembers us → DistinctMembers members) ∧ keys us = keys members := by
  cases members with
  | nil =>
      cases h
      exact ⟨Nat.le_refl _, fun _ => trivial, rfl⟩
  | cons member members =>
      simp only [rereadMembers, Option.bind_eq_bind, Option.bind_eq_some_iff, Option.pure_def,
        Option.some.injEq] at h
      obtain ⟨u, first, us, later, rfl⟩ := h
      have smaller := sizeOf_value_lt member
      obtain ⟨fewer, distinct⟩ := count_reread member.2 first
      obtain ⟨fewer', distinct', named⟩ := countMembers_reread members later
      simp only [countMembers_cons]
      refine ⟨by omega, fun full => ⟨distinct (by omega), distinct' (by omega)⟩, ?_⟩
      exact congrArg (member.1 :: ·) named
termination_by sizeOf members
decreasing_by
  all_goals subst_vars
  all_goals simp only [List.cons.sizeOf_spec]
  all_goals omega
end

/-- What is written of a value is read as one with as many members exactly when no object has a
    key twice, and then as the value itself. -/
theorem exists_parse_write (style : Style) {v : Json}
    (bounded : v.everywhere boundedNumber = true) (canonical : v.everywhere canonicalNumber = true)
    (finite : v.everywhere finiteNumber = true) (shallow : v.nesting ≤ maxDepth) :
    ∃ u, parse (write style 0 v) = .ok u ∧ (u.count = v.count ↔ v.Distinct) ∧
      (v.Distinct → u = v) := by
  obtain ⟨u, again⟩ :=
    Option.isSome_iff_exists.mp ((isSome_reread v maxDepth).mpr ⟨finite, shallow⟩)
  have read := parse_write style bounded
  rw [again] at read
  obtain ⟨fewer, distinct⟩ := count_reread v again
  have same (h : v.Distinct) : u = v := by
    have whole := reread_self v canonical finite h shallow
    rw [again] at whole
    exact Option.some.inj whole
  refine ⟨u, ?_, ⟨fun full => distinct full.ge, fun h => by rw [same h]⟩, same⟩
  cases found : parse (write style 0 v) with
  | error e =>
      rw [found] at read
      cases read
  | ok w =>
      rw [found] at read
      cases read
      rfl

end Recast.Json
