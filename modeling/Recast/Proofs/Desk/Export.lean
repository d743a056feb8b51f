import Mathlib.Data.List.TakeWhile
import Mathlib.Logic.Function.Basic
import Recast.Desk.File
import Recast.Proofs.Text.Lowercase

/-! # Where exports go

An export writes one file, right inside the directory for temporary files, whatever was entered
for its name. The name has the ending of the converter's format, and the file holds the output.
-/

namespace Recast.Desk

/-! ## Names -/

/-- A name that stands for a file inside a directory and for no other place. -/
structure IsFileName (name : Text) : Prop where
  some : name ≠ []
  inside : '/' ∉ name
  notHere : name ≠ "."
  notAbove : name ≠ ".."

theorem baseName_inside (path : Text) : '/' ∉ baseName path := by
  intro slash
  have kept := List.mem_takeWhile_imp (List.mem_reverse.mp slash)
  simp at kept

theorem baseName_append {tail : Text} (inside : '/' ∉ tail) (path : Text) :
    baseName (path ++ tail) = baseName path ++ tail := by
  have passed : ∀ c ∈ tail.reverse, decide (c ≠ '/') = true := by
    intro c listed
    rw [decide_eq_true_eq]
    rintro rfl
    exact inside (List.mem_reverse.mp listed)
  rw [baseName, List.reverse_append, List.takeWhile_append_of_pos passed, List.reverse_append,
    List.reverse_reverse, baseName]

/-- The endings that formats have. -/
def endings : List Text := [".ts", ".js", ".jsx", ".py", ".json", ".yaml", ".html", ".txt"]

theorem extension_mem_endings (format : Format) : format.extension ∈ endings := by
  cases format <;> decide

theorem extensionOf_mem_endings (slug : Text) : extensionOf slug ∈ endings := by
  unfold extensionOf
  split
  · exact extension_mem_endings _
  · decide

/-- What every ending is like. -/
structure IsEnding (ending : Text) : Prop where
  long : 2 < ending.length
  inside : '/' ∉ ending
  small : Text.lowerAscii ending = ending
  plain : ∀ c ∈ ending, Text.isPlainSign c

theorem isEnding_extensionOf (slug : Text) : IsEnding (extensionOf slug) := by
  have all : ∀ ending ∈ endings, 2 < ending.length ∧ '/' ∉ ending ∧
      Text.lowerAscii ending = ending ∧ ∀ c ∈ ending, Text.isPlainSign c := by
    decide
  obtain ⟨long, inside, small, plain⟩ := all _ (extensionOf_mem_endings slug)
  exact ⟨long, inside, small, plain⟩

/-- The end of a text is an ending, in some case. -/
def HasEnding (ending t : Text) : Prop :=
  ∃ start tail, t = start ++ tail ∧ Text.lowerAscii tail = ending

theorem hasEnding_of_lower {ending t : Text} (known : IsEnding ending)
    (ends : Text.endsWith ending (Text.lower t) = true) : HasEnding ending t := by
  have suffix := Text.suffix_lowerAscii known.plain (Text.endsWith_iff.mp ends)
  obtain ⟨tail, ⟨start, whole⟩, same⟩ := List.suffix_map_iff.mp suffix
  exact ⟨start, tail, whole.symm, same.symm⟩

theorem HasEnding.baseName {ending t : Text} (known : IsEnding ending) (h : HasEnding ending t) :
    HasEnding ending (baseName t) := by
  obtain ⟨start, tail, rfl, same⟩ := h
  refine ⟨Desk.baseName start, tail, baseName_append ?_ start, same⟩
  intro slash
  apply known.inside
  rw [← same]
  exact List.mem_map_of_mem slash

theorem HasEnding.long {ending t : Text} (known : IsEnding ending) (h : HasEnding ending t) :
    2 < t.length := by
  obtain ⟨start, tail, rfl, rfl⟩ := h
  have long := known.long
  rw [Text.lowerAscii, List.length_map] at long
  rw [List.length_append]
  omega

/-- A text has the ending once that is added unless it is there. -/
theorem hasEnding_completed {ending : Text} (known : IsEnding ending) (t : Text) :
    HasEnding ending (if Text.endsWith ending (Text.lower t) then t else t ++ ending) := by
  split
  · rename_i ends
    exact hasEnding_of_lower known ends
  · exact ⟨t, ending, rfl, known.small⟩

theorem hasEnding_exportName (slug : Text) (entered : Option Text) :
    HasEnding (extensionOf slug) (exportName slug entered) := by
  have known := isEnding_extensionOf slug
  exact (hasEnding_completed known _).baseName known

theorem isFileName_exportName (slug : Text) (entered : Option Text) :
    IsFileName (exportName slug entered) := by
  have long := (hasEnding_exportName slug entered).long (isEnding_extensionOf slug)
  have other {name : Text} (short : name.length ≤ 2) : exportName slug entered ≠ name := by
    rintro rfl
    omega
  exact ⟨other (by decide), baseName_inside _, other (by decide), other (by decide)⟩

/-! ## Files -/

/-- The octets of the files there are, each under its path. -/
abbrev Files := Text → Option Bytes

/-- The path that is reported by an export that succeeds. -/
def Export.path? : Export → Option Text
  | .written name _ => some (exportPath name)
  | _ => none

/-- The files after an export. -/
def Export.save (files : Files) : Export → Files
  | .written name content => Function.update files (exportPath name) (some (Utf8.encode content))
  | _ => files

/-- An export that fails leaves all files as they are. -/
theorem save_of_path?_eq_none {e : Export} (failed : e.path? = none) (files : Files) :
    e.save files = files := by
  cases e with
  | written => cases failed
  | nothing | nameTooLong | nulInName => rfl

/-- Can a file have the name? -/
def fits (name : Text) : Bool :=
  !name.any (· = '\x00') && (Utf8.encode name).length ≤ maxNameOctets

variable {output slug path : Text} {entered : Option Text}

theorem exportOutput_eq_written (some : output ≠ []) (fit : fits (exportName slug entered)) :
    exportOutput output slug entered = .written (exportName slug entered) output := by
  rw [fits, Bool.and_eq_true, Bool.not_eq_true', decide_eq_true_eq] at fit
  unfold exportOutput
  rw [if_neg (by simpa using some)]
  dsimp only
  rw [fit.1, if_neg (by decide), if_neg (Nat.not_lt.mpr fit.2)]

/-- An export succeeds unless there is no output or no file can have the name. -/
theorem isSome_path?_iff :
    (exportOutput output slug entered).path?.isSome ↔
      output ≠ [] ∧ fits (exportName slug entered) := by
  constructor
  · intro reported
    unfold exportOutput at reported
    split at reported
    · cases reported
    · rename_i some
      dsimp only at reported
      split at reported
      · cases reported
      · split at reported
        · cases reported
        · rename_i plain short
          rw [List.isEmpty_iff] at some
          refine ⟨some, ?_⟩
          rw [fits, Bool.eq_false_iff.mpr plain, decide_eq_true (Nat.not_lt.mp short)]
          rfl
  · rintro ⟨some, fit⟩
    rw [exportOutput_eq_written some fit]
    rfl

theorem exportOutput_of_path? (reported : (exportOutput output slug entered).path? = some path) :
    exportOutput output slug entered = .written (exportName slug entered) output ∧
      path = exportPath (exportName slug entered) := by
  obtain ⟨some, fit⟩ := isSome_path?_iff.mp (by rw [reported]; rfl)
  have written := exportOutput_eq_written some fit
  rw [written] at reported
  exact ⟨written, (Option.some.inj reported).symm⟩

/-- A successful export sets one file. Its path leads straight into the directory, its name has
the ending, and it holds the output. -/
theorem exported_inside (reported : (exportOutput output slug entered).path? = some path) :
    (exportOutput output slug entered).status = "Export successful! Saved to ".toList ++ path ∧
      ∃ name, path = temporaryDirectory ++ '/' :: name ∧ IsFileName name ∧
        HasEnding (extensionOf slug) name ∧
          ∀ files, (exportOutput output slug entered).save files =
            Function.update files path (some (Utf8.encode output)) := by
  obtain ⟨written, rfl⟩ := exportOutput_of_path? reported
  rw [written]
  exact ⟨rfl, exportName slug entered, rfl, isFileName_exportName slug entered,
    hasEnding_exportName slug entered, fun _ => rfl⟩

/-- A name with a way out of the directory and capitals of more than one kind. -/
def wanderingName : Text := " ../İ/../Karte.YAML\n"

theorem exported_inside_wanderingName :
    (exportOutput "a: 1" "json-to-yaml" (some wanderingName)).path? = some "$TMP/Karte.YAML".toList ∧
      (exportOutput "a: 1" "json-to-yaml" (some wanderingName)).status =
          "Export successful! Saved to ".toList ++ "$TMP/Karte.YAML".toList ∧
        ∃ name, "$TMP/Karte.YAML".toList = temporaryDirectory ++ '/' :: name ∧ IsFileName name ∧
          HasEnding (extensionOf "json-to-yaml") name ∧
            ∀ files, (exportOutput "a: 1" "json-to-yaml" (some wanderingName)).save files =
              Function.update files "$TMP/Karte.YAML" (some (Utf8.encode "a: 1")) := by
  have reported : (exportOutput "a: 1" "json-to-yaml" (some wanderingName)).path? =
      some "$TMP/Karte.YAML".toList := by
    decide
  exact ⟨reported, exported_inside reported⟩

end Recast.Desk
