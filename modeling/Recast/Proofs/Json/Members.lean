import Recast.Json.Basic
import Recast.Proofs.Distinct

/-! # Members with repeated keys

Members that are put in one after the other stay as they are exactly when no key comes
twice. A key that comes again keeps its place and takes the last value.
-/

namespace Recast.Json

/-- The keys in their order. -/
def keys (members : List (Text × Json)) : List Text := members.map Prod.fst

theorem put_cons (key : Text) (value : Json) (k : Text) (v : Json) (rest : List (Text × Json)) :
    put key value ((k, v) :: rest) =
      if k = key then (k, value) :: rest else (k, v) :: put key value rest := rfl

theorem put_of_not_mem {key : Text} {members : List (Text × Json)} (new : key ∉ keys members)
    (value : Json) : put key value members = members ++ [(key, value)] := by
  induction members with
  | nil => rfl
  | cons member rest ih =>
      obtain ⟨k, v⟩ := member
      simp only [keys, List.map_cons, List.mem_cons, not_or] at new
      simp only [put_cons, if_neg (Ne.symm new.1), ih new.2, List.cons_append]

theorem length_put_of_mem {key : Text} {members : List (Text × Json)} (known : key ∈ keys members)
    (value : Json) : (put key value members).length = members.length := by
  induction members with
  | nil => simp [keys] at known
  | cons member rest ih =>
      obtain ⟨k, v⟩ := member
      simp only [put_cons]
      split
      · rfl
      · rename_i other
        have later : key ∈ keys rest := by
          simpa [keys, Ne.symm other] using known
        simp only [List.length_cons, ih later]

theorem keys_put_of_mem {key : Text} {members : List (Text × Json)} (known : key ∈ keys members)
    (value : Json) : keys (put key value members) = keys members := by
  induction members with
  | nil => simp [keys] at known
  | cons member rest ih =>
      obtain ⟨k, v⟩ := member
      simp only [put_cons]
      split
      · rfl
      · rename_i other
        have later : key ∈ keys rest := by
          simpa [keys, Ne.symm other] using known
        exact congrArg (k :: ·) (ih later)

theorem nodup_put {members : List (Text × Json)} (distinct : (keys members).Nodup) (key : Text)
    (value : Json) : (keys (put key value members)).Nodup := by
  by_cases known : key ∈ keys members
  · rwa [keys_put_of_mem known]
  · rw [put_of_not_mem known]
    simp only [keys, List.map_append, List.map_cons, List.map_nil]
    exact distinct.append (List.nodup_singleton key) (by simpa using known)

theorem mem_put {key : Text} {value : Json} {members : List (Text × Json)} {member : Text × Json}
    (h : member ∈ put key value members) : member = (key, value) ∨ member ∈ members := by
  induction members with
  | nil => exact .inl (List.mem_singleton.mp h)
  | cons first rest ih =>
      obtain ⟨k, v⟩ := first
      simp only [put_cons] at h
      split at h
      · rename_i same
        subst same
        exact (List.mem_cons.mp h).imp_right (List.mem_cons_of_mem _)
      · obtain rfl | later := List.mem_cons.mp h
        · exact .inr List.mem_cons_self
        · exact (ih later).imp_right (List.mem_cons_of_mem _)

theorem keys_put (key : Text) (value : Json) (members : List (Text × Json)) :
    keys (put key value members) =
      if key ∈ keys members then keys members else keys members ++ [key] := by
  split
  · rename_i known
    exact keys_put_of_mem known value
  · rename_i new
    rw [put_of_not_mem new]
    simp [keys]

theorem find?_cons (k key : Text) (value : Json) (members : List (Text × Json)) :
    find? k ((key, value) :: members) = if k = key then some value else find? k members := by
  rw [find?, List.lookup_cons]
  by_cases same : k = key
  · simp [same]
  · rw [if_neg same, beq_false_of_ne same]
    rfl

theorem find?_eq_none_iff {key : Text} {members : List (Text × Json)} :
    find? key members = none ↔ key ∉ keys members := by
  induction members with
  | nil => simp [find?, keys]
  | cons member rest ih =>
      obtain ⟨k, v⟩ := member
      rw [find?_cons]
      by_cases same : key = k <;> simp [same, ih, keys]

theorem find?_put (k key : Text) (value : Json) (members : List (Text × Json)) :
    find? k (put key value members) = if k = key then some value else find? k members := by
  induction members with
  | nil => exact find?_cons k key value []
  | cons member rest ih =>
      obtain ⟨k', v⟩ := member
      simp only [put_cons]
      split
      · rename_i same
        subst same
        simp only [find?_cons]
        split <;> rfl
      · rename_i other
        simp only [find?_cons, ih]
        split
        · rename_i here
          rw [if_neg (here ▸ other)]
        · rfl

theorem mem_of_find? {key : Text} {value : Json} {members : List (Text × Json)}
    (found : find? key members = some value) : (key, value) ∈ members := by
  obtain ⟨before, after, rfl, -⟩ := List.lookup_eq_some_iff.mp found
  exact List.mem_append_right before List.mem_cons_self

theorem find?_of_nodup {members : List (Text × Json)} (distinct : (keys members).Nodup)
    {key : Text} {v : Json} (listed : (key, v) ∈ members) : find? key members = some v := by
  cases found : find? key members with
  | none =>
      have known : key ∈ keys members := List.mem_map_of_mem listed
      exact absurd known (find?_eq_none_iff.mp found)
  | some w =>
      have same := List.inj_on_of_nodup_map distinct (mem_of_find? found) listed rfl
      exact congrArg some (Prod.mk.inj same).2

/-- Each member once more put into the given ones. -/
def putAll (members pairs : List (Text × Json)) : List (Text × Json) :=
  pairs.foldl (fun members (key, value) => put key value members) members

theorem ofPairs_eq (pairs : List (Text × Json)) : ofPairs pairs = putAll [] pairs := rfl

theorem putAll_cons (members pairs : List (Text × Json)) (key : Text) (value : Json) :
    putAll members ((key, value) :: pairs) = putAll (put key value members) pairs := rfl

theorem putAll_of_nodup {members pairs : List (Text × Json)}
    (distinct : (keys (members ++ pairs)).Nodup) : putAll members pairs = members ++ pairs := by
  induction pairs generalizing members with
  | nil => exact (List.append_nil members).symm
  | cons pair rest ih =>
      obtain ⟨key, value⟩ := pair
      have whole : members ++ (key, value) :: rest = (members ++ [(key, value)]) ++ rest := by simp
      have new : key ∉ keys members := by
        intro member
        simp only [keys, List.map_append, List.map_cons] at distinct
        exact (List.nodup_append.mp distinct).2.2 _ member _ List.mem_cons_self rfl
      rw [putAll_cons, put_of_not_mem new, ih (by rwa [← whole]), whole]

theorem length_putAll_le (members pairs : List (Text × Json)) :
    (putAll members pairs).length ≤ members.length + pairs.length := by
  induction pairs generalizing members with
  | nil => exact Nat.le_refl _
  | cons pair rest ih =>
      obtain ⟨key, value⟩ := pair
      have later := ih (put key value members)
      rw [putAll_cons]
      by_cases known : key ∈ keys members
      · rw [length_put_of_mem known] at later
        rw [List.length_cons]
        omega
      · rw [put_of_not_mem known, List.length_append] at later
        rw [put_of_not_mem known, List.length_cons]
        simp only [List.length_singleton] at later
        omega

/-- Members are only lost to a repeated key. -/
theorem nodup_of_length_putAll {members : List (Text × Json)} (pairs : List (Text × Json))
    (distinct : (keys members).Nodup)
    (full : (putAll members pairs).length = members.length + pairs.length) :
    (keys (members ++ pairs)).Nodup := by
  induction pairs generalizing members with
  | nil => rwa [List.append_nil]
  | cons pair rest ih =>
      obtain ⟨key, value⟩ := pair
      rw [putAll_cons, List.length_cons] at full
      by_cases known : key ∈ keys members
      · have most := length_putAll_le (put key value members) rest
        rw [length_put_of_mem known] at most
        omega
      · have distinct' := nodup_put distinct key value
        rw [put_of_not_mem known] at full distinct'
        have whole := ih distinct' (by rw [full, List.length_append, List.length_singleton]; omega)
        rwa [List.append_assoc] at whole

theorem mem_putAll {members pairs : List (Text × Json)} {member : Text × Json}
    (h : member ∈ putAll members pairs) : member ∈ members ∨ member ∈ pairs := by
  induction pairs generalizing members with
  | nil => exact .inl h
  | cons pair rest ih =>
      obtain ⟨key, value⟩ := pair
      obtain before | later := ih h
      · obtain rfl | before := mem_put before
        · exact .inr List.mem_cons_self
        · exact .inl before
      · exact .inr (List.mem_cons_of_mem _ later)

theorem mem_ofPairs {pairs : List (Text × Json)} {member : Text × Json}
    (h : member ∈ ofPairs pairs) : member ∈ pairs :=
  (mem_putAll h).resolve_left List.not_mem_nil

theorem ofPairs_of_nodup {pairs : List (Text × Json)} (distinct : (keys pairs).Nodup) :
    ofPairs pairs = pairs := by
  rw [ofPairs_eq, putAll_of_nodup (by simpa using distinct), List.nil_append]

theorem nodup_of_length_ofPairs {pairs : List (Text × Json)}
    (full : (ofPairs pairs).length = pairs.length) : (keys pairs).Nodup := by
  have none : (keys []).Nodup := List.nodup_nil
  have whole := nodup_of_length_putAll pairs none
    (by rw [← ofPairs_eq, full, List.length_nil, Nat.zero_add])
  rwa [List.nil_append] at whole

/-! ## Values under a key -/

/-- All values under a key, in their order. -/
def valuesOf (key : Text) (pairs : List (Text × Json)) : List Json :=
  (pairs.filter fun pair => pair.1 = key).map Prod.snd

theorem valuesOf_concat (k key : Text) (value : Json) (pairs : List (Text × Json)) :
    valuesOf k (pairs ++ [(key, value)]) =
      if k = key then valuesOf k pairs ++ [value] else valuesOf k pairs := by
  by_cases same : k = key
  · simp [valuesOf, same]
  · simp [valuesOf, same, Ne.symm same]

theorem valuesOf_eq_nil_iff {key : Text} {pairs : List (Text × Json)} :
    valuesOf key pairs = [] ↔ key ∉ keys pairs := by
  simp only [valuesOf, List.map_eq_nil_iff, List.filter_eq_nil_iff, decide_eq_true_eq, keys,
    List.mem_map, not_exists, not_and]

theorem ofPairs_concat (pairs : List (Text × Json)) (key : Text) (value : Json) :
    ofPairs (pairs ++ [(key, value)]) = put key value (ofPairs pairs) :=
  List.foldl_concat ..

/-- Repeated keys stand where they come first. -/
theorem keys_ofPairs (pairs : List (Text × Json)) :
    keys (ofPairs pairs) = (keys pairs).eraseDups := by
  induction pairs using List.reverseRecOn with
  | nil => rfl
  | append_singleton pairs pair ih =>
      obtain ⟨key, value⟩ := pair
      have longer : keys (pairs ++ [(key, value)]) = keys pairs ++ [key] := by simp [keys]
      rw [ofPairs_concat, keys_put, ih, longer, eraseDups_concat]
      simp only [List.mem_eraseDups]

theorem nodup_ofPairs (pairs : List (Text × Json)) : (keys (ofPairs pairs)).Nodup := by
  rw [keys_ofPairs]
  exact nodup_eraseDups _

/-- A repeated key has its last value. -/
theorem find?_ofPairs (k : Text) (pairs : List (Text × Json)) :
    find? k (ofPairs pairs) = (valuesOf k pairs).getLast? := by
  induction pairs using List.reverseRecOn with
  | nil => rfl
  | append_singleton pairs pair ih =>
      obtain ⟨key, value⟩ := pair
      rw [ofPairs_concat, find?_put, ih, valuesOf_concat]
      split
      · rw [List.getLast?_concat]
      · rfl

end Recast.Json
