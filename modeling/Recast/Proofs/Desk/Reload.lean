import Recast.Proofs.Codec.Utf8
import Recast.Proofs.Desk.Export

/-! # Loading an export

A file is read by its path with universal newlines, and from a stream as it stands. So an
exported file gives the output back from a stream, and by its path exactly when the output has
no carriage return.
-/

namespace Recast.Text

theorem universalNewlines_cons {c : Char} (other : c ≠ '\r') (t : Text) :
    universalNewlines (c :: t) = c :: universalNewlines t := by
  rw [universalNewlines]
  · intro _ return'
    exact absurd return' other
  · exact other

/-- No carriage return is left. -/
theorem not_mem_universalNewlines (t : Text) : '\r' ∉ universalNewlines t := by
  fun_induction universalNewlines t with
  | case1 => exact List.not_mem_nil
  | case2 rest ih => exact List.not_mem_cons_of_ne_of_not_mem (by decide) ih
  | case3 rest _ ih => exact List.not_mem_cons_of_ne_of_not_mem (by decide) ih
  | case4 c rest _ other ih => exact List.not_mem_cons_of_ne_of_not_mem (Ne.symm other) ih

theorem universalNewlines_eq_self_iff {t : Text} : universalNewlines t = t ↔ '\r' ∉ t := by
  constructor
  · intro same
    rw [← same]
    exact not_mem_universalNewlines t
  · intro plain
    induction t with
    | nil => rfl
    | cons c t ih =>
        rw [List.mem_cons, not_or] at plain
        rw [universalNewlines_cons (Ne.symm plain.1), ih plain.2]

end Recast.Text

namespace Recast.Desk

/-- What is loaded by a path. -/
def Files.source (files : Files) (path : Text) : Source :=
  match files path with
  | some bytes => .file bytes
  | none => .missing path

/-- The answer when a text was loaded. -/
def loaded (t : Text) : Option Text × Text := (some t, "File loaded.")

theorem load_octets_encode (t : Text) : load (.octets (Utf8.encode t)) = loaded t := by
  rw [load, Source.read, Utf8.decode_encode]
  rfl

theorem load_file_encode (t : Text) :
    load (.file (Utf8.encode t)) = loaded (Text.universalNewlines t) := by
  rw [load, Source.read, Utf8.decode_encode]
  rfl

theorem loaded_inj {s t : Text} : loaded s = loaded t ↔ s = t := by
  simp [loaded]

variable {output slug path : Text} {entered : Option Text}

/-- An exported file loads as the output from a stream of its octets, and by its path as the
    output with all lines ended by line feeds. These are the same exactly when the output has no
    carriage return. -/
theorem load_exported (reported : (exportOutput output slug entered).path? = some path)
    (files : Files) :
    ∃ bytes, (exportOutput output slug entered).save files path = some bytes ∧
      load (.octets bytes) = loaded output ∧
      load (((exportOutput output slug entered).save files).source path) =
        loaded (Text.universalNewlines output) ∧
      (load (((exportOutput output slug entered).save files).source path) = loaded output ↔
        '\r' ∉ output) := by
  obtain ⟨written, rfl⟩ := exportOutput_of_path? reported
  have stored : (exportOutput output slug entered).save files
      (exportPath (exportName slug entered)) = some (Utf8.encode output) := by
    rw [written]
    exact Function.update_self ..
  have byPath : load (((exportOutput output slug entered).save files).source
      (exportPath (exportName slug entered))) = loaded (Text.universalNewlines output) := by
    rw [Files.source, stored]
    exact load_file_encode output
  refine ⟨Utf8.encode output, stored, load_octets_encode output, byPath, ?_⟩
  rw [byPath, loaded_inj, Text.universalNewlines_eq_self_iff]

def noFiles : Files := fun _ => none

/-- Two lines, the first ended by a carriage return as well. -/
def twoLines : Text := "a\r\nb"

def twoLinesExport : Export := exportOutput twoLines "base64-decode" none

theorem load_exported_twoLines :
    twoLinesExport.path? = some "$TMP/output.txt".toList ∧
      ∃ bytes, twoLinesExport.save noFiles "$TMP/output.txt" = some bytes ∧
        load (.octets bytes) = loaded twoLines ∧
        load ((twoLinesExport.save noFiles).source "$TMP/output.txt") =
          loaded (Text.universalNewlines twoLines) := by
  have reported : twoLinesExport.path? = some "$TMP/output.txt".toList := by
    decide
  obtain ⟨bytes, stored, fromStream, byPath, -⟩ := load_exported reported noFiles
  exact ⟨reported, bytes, stored, fromStream, byPath⟩

/-- By its path this file loses the carriage return. -/
theorem load_exported_differs :
    twoLinesExport.path? = some "$TMP/output.txt".toList ∧
      load ((twoLinesExport.save noFiles).source "$TMP/output.txt") = loaded "a\nb" ∧
      loaded "a\nb" ≠ loaded twoLines := by
  refine ⟨?_, ?_, ?_⟩ <;> decide

end Recast.Desk
