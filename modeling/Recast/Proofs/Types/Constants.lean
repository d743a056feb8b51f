import Recast.Proofs.Types.Reader

/-! # Constants that were read

A text that is read as a type spells each of its constants as a string or a numeral. So the
words for numbers that are not finite never come back as constants.
-/

namespace Recast

open TypeTree

def Level.trees (l : Level) : List TypeTree := l.members ++ l.operands

def Reading.trees (r : Reading) : List TypeTree := r.last :: r.toLevel.trees

section

variable {r : Reading}

theorem Reading.finite_factors (h : ∀ type ∈ r.trees, Finite type) :
    ∀ type ∈ r.factors, Finite type := by
  simp only [trees, Level.trees, List.forall_mem_cons, List.forall_mem_append] at h
  exact List.forall_mem_append.mpr ⟨h.2.2, by simpa using h.1⟩

theorem Reading.finite_terms (h : ∀ type ∈ r.trees, Finite type) :
    ∀ type ∈ r.terms, Finite type := by
  have joined : Finite (joined .and r.factors) := finite_joined (finite_factors h)
  simp only [trees, Level.trees, List.forall_mem_cons, List.forall_mem_append] at h
  exact List.forall_mem_append.mpr ⟨h.2.1, by simpa using joined⟩

theorem Reading.finite_close (h : ∀ type ∈ r.trees, Finite type) : Finite r.close :=
  finite_joined (finite_terms h)

theorem Reading.finite_push (h : ∀ type ∈ r.trees, Finite type) (op : Operator) :
    ∀ type ∈ (r.push op).trees, Finite type := by
  cases op with
  | or => exact List.forall_mem_append.mpr ⟨finite_terms h, by simp [push]⟩
  | and =>
      have operands := finite_factors h
      simp only [trees, Level.trees, List.forall_mem_cons, List.forall_mem_append] at h
      exact List.forall_mem_append.mpr ⟨h.2.1, operands⟩

end

namespace TypeText

def Frame.trees : Frame → List TypeTree
  | .group l => l.trees
  | .tuple l items => l.trees ++ items
  | .field l fields _ _ => l.trees ++ fields.map Field.type

def Place.trees : Place → List TypeTree
  | .operand l => l.trees
  | .after r | .bracket r => r.trees
  | .key l fields | .colon l fields _ _ => l.trees ++ fields.map Field.type

def State.Finite (s : State) : Prop :=
  (∀ type ∈ s.place.trees, TypeTree.Finite type) ∧
    ∀ frame ∈ s.frames, ∀ type ∈ frame.trees, TypeTree.Finite type

def Token.Sound : Token → Prop
  | .number text => Json.isNumeral text
  | _ => True

theorem sound_of_finish? {p : Pending} {done : List Token} (h : finish? p = some done) :
    ∀ token ∈ done, token.Sound := by
  unfold finish? at h
  split at h
  · cases h
    simp
  · cases h
    simp [Token.Sound]
  · cases h
    simp [Token.Sound]
  · split at h
    · rename_i numeral
      cases h
      simpa [Token.Sound] using numeral
    · cases h
  · split at h
    · cases h
      simp [Token.Sound]
    · cases h
  all_goals cases h

theorem sound_of_scan {p : Pending} {t : Text} {tokens : List Token} (h : scan p t = some tokens) :
    ∀ token ∈ tokens, token.Sound := by
  induction t generalizing p tokens with
  | nil => exact sound_of_finish? h
  | cons c rest ih =>
      rw [scan] at h
      split at h
      · exact ih h
      · simp only [Option.bind_eq_some_iff, Option.map_eq_some_iff] at h
        obtain ⟨done, finished, p, -, later, scanned, rfl⟩ := h
        exact List.forall_mem_append.mpr ⟨sound_of_finish? finished, ih scanned⟩

theorem finite_ofWord (word : Text) : TypeTree.Finite (ofWord word) := by
  unfold ofWord
  split <;> simp [finite]

theorem finite_quote (value : Text) : TypeTree.Finite (.literal (Json.quote value)) := by
  simp [finite, nonFinite, Json.quote]

theorem finite_numeral {text : Text} (h : Json.isNumeral text) :
    TypeTree.Finite (.literal text) := by
  have words : ∀ word ∈ nonFinite, Json.isNumeral word = false := by decide
  rw [TypeTree.Finite, everywhere_literal, finite, decide_eq_true_eq]
  intro member
  rw [words text member] at h
  cases h

section

variable {l : Level} {r : Reading} {s : State} {frames : List Frame} {token : Token}

theorem finite_begin? (sound : token.Sound) (before : State.Finite ⟨.operand l, frames⟩)
    (h : begin? l frames token = some s) : s.Finite := by
  obtain ⟨level, outer⟩ := before
  have known {type : TypeTree} (finite : TypeTree.Finite type) :
      State.Finite ⟨.after ⟨l, type⟩, frames⟩ :=
    ⟨List.forall_mem_cons.mpr ⟨finite, level⟩, outer⟩
  unfold begin? at h
  split at h
  · cases h
    exact known (finite_ofWord _)
  · cases h
    exact known (finite_quote _)
  · cases h
    exact known (finite_numeral sound)
  · cases h
    exact ⟨by simp [Place.trees, Level.trees], List.forall_mem_cons.mpr ⟨level, outer⟩⟩
  · cases h
    exact ⟨by simp [Place.trees, Level.trees],
      List.forall_mem_cons.mpr ⟨by simpa [Frame.trees, Place.trees] using level, outer⟩⟩
  · cases h
    exact ⟨by simpa [Place.trees] using level, outer⟩
  · split at h
    · cases h
      rw [List.forall_mem_cons, Frame.trees, List.forall_mem_append] at outer
      exact ⟨List.forall_mem_cons.mpr ⟨finite_tuple.mpr outer.1.2, outer.1.1⟩, outer.2⟩
    · cases h
  · cases h

theorem finite_leave? {type : TypeTree} {c : Char} (known : TypeTree.Finite type)
    (outer : ∀ frame ∈ frames, ∀ type ∈ frame.trees, TypeTree.Finite type)
    (h : leave? type frames c = some s) : s.Finite := by
  unfold leave? at h
  split at h
  · cases h
    rw [List.forall_mem_cons] at outer
    exact ⟨List.forall_mem_cons.mpr ⟨known, outer.1⟩, outer.2⟩
  · cases h
    rw [List.forall_mem_cons, Frame.trees, List.forall_mem_append] at outer
    refine ⟨by simp [Place.trees, Level.trees], List.forall_mem_cons.mpr ⟨?_, outer.2⟩⟩
    rw [Frame.trees, List.forall_mem_append, List.forall_mem_append]
    exact ⟨outer.1.1, outer.1.2, by simpa using known⟩
  · cases h
    rw [List.forall_mem_cons, Frame.trees, List.forall_mem_append] at outer
    refine ⟨List.forall_mem_cons.mpr ⟨?_, outer.1.1⟩, outer.2⟩
    rw [finite_tuple, List.forall_mem_append]
    exact ⟨outer.1.2, by simpa using known⟩
  · rw [List.forall_mem_cons, Frame.trees, List.forall_mem_append, List.forall_mem_map] at outer
    split at h
    · cases h
      refine ⟨?_, outer.2⟩
      rw [Place.trees, List.forall_mem_append, List.forall_mem_map, List.forall_mem_append]
      exact ⟨outer.1.1, outer.1.2, by simpa using known⟩
    · split at h
      · cases h
        refine ⟨List.forall_mem_cons.mpr ⟨?_, outer.1.1⟩, outer.2⟩
        rw [finite_record, List.forall_mem_append]
        exact ⟨outer.1.2, by simpa using known⟩
      · cases h
  · cases h

theorem finite_goOn? (before : State.Finite ⟨.after r, frames⟩)
    (h : goOn? r frames token = some s) : s.Finite := by
  obtain ⟨inner, outer⟩ := before
  unfold goOn? at h
  split at h
  · cases h
    exact ⟨Reading.finite_push inner .or, outer⟩
  · cases h
    exact ⟨Reading.finite_push inner .and, outer⟩
  · cases h
    exact ⟨inner, outer⟩
  · exact finite_leave? (Reading.finite_close inner) outer h
  · cases h

/-- One token adds no constant that is not finite. -/
theorem finite_step {s' : State} (sound : token.Sound) (before : s.Finite)
    (h : step s token = some s') : s'.Finite := by
  unfold step at h
  split at h
  · exact finite_begin? sound before h
  · exact finite_goOn? before h
  · cases h
    obtain ⟨inner, outer⟩ := before
    rw [Place.trees, Reading.trees, List.forall_mem_cons] at inner
    exact ⟨List.forall_mem_cons.mpr ⟨finite_array.mpr inner.1, inner.2⟩, outer⟩
  · cases h
    exact before
  · cases h
    exact before
  · cases h
    obtain ⟨inner, outer⟩ := before
    rw [Place.trees, List.forall_mem_append, List.forall_mem_map] at inner
    exact ⟨List.forall_mem_cons.mpr ⟨finite_record.mpr inner.2, inner.1⟩, outer⟩
  · cases h
    exact before
  · cases h
    exact ⟨by simp [Place.trees, Level.trees], List.forall_mem_cons.mpr ⟨before.1, before.2⟩⟩
  · cases h

theorem finite_run {s' : State} {tokens : List Token} (sound : ∀ token ∈ tokens, token.Sound)
    (before : s.Finite) (h : run s tokens = some s') : s'.Finite := by
  induction tokens generalizing s with
  | nil =>
      cases h
      exact before
  | cons token tokens ih =>
      rw [List.forall_mem_cons] at sound
      rw [run, Option.bind_eq_some_iff] at h
      obtain ⟨next, here, later⟩ := h
      exact ih sound.2 (finite_step sound.1 before here) later

end

theorem finite_read {t : Text} {type : TypeTree} (h : read t = some type) :
    TypeTree.Finite type := by
  simp only [read, runText, tokens, Option.bind_eq_some_iff] at h
  obtain ⟨s, ⟨tokens, scanned, ran⟩, ended⟩ := h
  have start : State.Finite ⟨.operand {}, []⟩ := ⟨by simp [Place.trees, Level.trees], by simp⟩
  have finished := finite_run (sound_of_scan scanned) start ran
  unfold ended? at ended
  split at ended
  · cases ended
    exact Reading.finite_close finished.1
  · cases ended

end TypeText
end Recast
