import Recast.Proofs.Json.Accepted

/-! # Reading with the constants allowed

The two ways of reading differ in the constants for numbers that are not finite and in
nothing else: what reads without them reads as the same value where they are allowed.
-/

namespace Recast.Json

open Text

section

variable {α : Type} {t : Text}

/-- A word that the one reader accepts, where the other may refuse it. -/
def Refused (strict loose : Option (Except Stop α)) : Prop :=
  loose = strict ∨ ∃ stop, strict = some (.error stop)

theorem Refused.getD {strict loose : Option (Except Stop α)} {result : Except Stop α} {a : α}
    (here : Refused strict loose) (h : strict.getD result = .ok a) : loose.getD result = .ok a := by
  rcases here with rfl | ⟨stop, rfl⟩
  · exact h
  · cases h

theorem Refused.or {strict strict' loose loose' : Option (Except Stop α)}
    (here : Refused strict loose) (later : Refused strict' loose') :
    Refused (strict.or strict') (loose.or loose') := by
  rcases here with rfl | ⟨stop, rfl⟩
  · cases loose with
    | none => exact later
    | some known => exact .inl rfl
  · exact .inr ⟨stop, rfl⟩

theorem refused_constant (name : Text) (x : Binary64) :
    Refused ((after? name t).map fun _ => (.error (.constant name) : Except Stop (Json × Text)))
      ((after? name t).map fun rest => .ok (.float x, rest)) := by
  cases after? name t with
  | none => exact .inl rfl
  | some rest => exact .inr ⟨_, rfl⟩

theorem refused_readWord? (t : Text) : Refused (readWord? false t) (readWord? true t) := by
  simp only [readWord?, Option.orElse_eq_orElse, Option.orElse_eq_or, Bool.false_eq_true, if_false,
    if_true]
  apply Refused.or (.inl rfl)
  apply Refused.or (.inl rfl)
  apply Refused.or (.inl rfl)
  apply Refused.or (refused_constant "NaN" .nan)
  apply Refused.or (refused_constant "Infinity" (.infinite false))
  exact refused_constant "-Infinity" (.infinite true)

/-! ## Whole texts -/

/-- Each way to read is open to the reader that allows the constants. -/
theorem constants_cases : ReadCases false
    (fun fuel depth t v rest => readValue true fuel depth t = .ok (v, rest))
    (fun fuel depth t vs rest => readItems true fuel depth t = .ok (vs, rest))
    (fun fuel depth t pairs rest => readMembers true fuel depth t = .ok (pairs, rest)) where
  string read := by
    rw [readValue.eq_def]
    simp only [read]
    rfl
  emptyArray closing := by
    rw [readValue.eq_def]
    simp only [closing]
  array other items := by
    rw [readValue.eq_def]
    simp only [items]
    rfl
  emptyObject closing := by
    rw [readValue.eq_def]
    simp only [closing]
  object other members := by
    rw [readValue.eq_def]
    simp only [members]
    rfl
  atom quote bracket brace h := by
    rw [readValue.eq_def]
    simp only
    exact (refused_readWord? _).getD h
  lastItem value closing := by
    rw [readItems, value, ok_bind]
    simp only [closing]
    rfl
  moreItems value comma items := by
    rw [readItems, value, ok_bind]
    simp only [comma, items]
    rfl
  lastMember read colon value closing := by
    rw [readMembers.eq_def]
    simp only [read, ok_bind, colon, value, closing]
    rfl
  moreMembers read colon value comma members := by
    rw [readMembers.eq_def]
    simp only [read, ok_bind, colon, value, comma, members]
    rfl

/-- What is JSON reads the same where the constants are allowed. -/
theorem parseWith_of_parse {v : Json} (h : parse t = .ok v) (constants : Bool) :
    parseWith constants t = .ok v := by
  cases constants with
  | false => exact h
  | true =>
      unfold parse parseWith at h
      unfold parseWith
      split at h
      · cases h
      · cases read : readAll false t with
        | error stop =>
            rw [read] at h
            cases h
        | ok w =>
            rw [read] at h
            cases h
            have loose : readAll true t = .ok v := by
              obtain ⟨⟨w, rest⟩, value, ends⟩ := bind_eq_ok.mp read
              rw [readAll, (constants_cases.all _).1 value]
              exact ends
            simp only [loose]
            rfl

end

end Recast.Json
