import Fileset.Proofs.Text.Blank
import Fileset.Proofs.Text.Split
import Fileset.Settings.Edit

namespace Fileset.Settings

structure Tidy (raw : String) : Prop where
  full : raw ≠ ""
  whole : ',' ∉ raw.toList
  trimmed : Text.trim raw.toList = raw.toList

variable {value : String} {raws : List String}

theorem tidy_of_mem {raw : String} (h : raw ∈ splitPatterns value) : Tidy raw := by
  obtain ⟨piece, hpiece, rfl⟩ := List.mem_map.mp h
  obtain ⟨hpiece, hfull⟩ := List.mem_filter.mp hpiece
  obtain ⟨part, hpart, rfl⟩ := List.mem_map.mp hpiece
  refine ⟨?_, ?_, ?_⟩
  · simpa [String.ofList_eq_empty_iff] using hfull
  · rw [String.toList_ofList]
    intro hcomma
    exact (Text.mem_of_mem_splitOn hpart (Text.mem_of_mem_trim hcomma)).1 rfl
  · rw [String.toList_ofList, Text.trim_trim]

theorem splitPatterns_intercalate (h : ∀ raw ∈ raws, Tidy raw) :
    splitPatterns (",".intercalate raws) = raws := by
  have htext : (",".intercalate raws).toList = [','].intercalate (raws.map String.toList) :=
    String.toList_intercalate
  unfold splitPatterns
  rw [htext]
  cases raws with
  | nil => rfl
  | cons raw raws =>
    have hsplit : ([','].intercalate ((raw :: raws).map String.toList)).splitOn ',' =
        (raw :: raws).map String.toList := by
      refine List.splitOn_intercalate ',' (fun piece hpiece => ?_) (by simp)
      obtain ⟨r, hr, rfl⟩ := List.mem_map.mp hpiece
      exact (h r hr).whole
    have htrim : ((raw :: raws).map String.toList).map Text.trim = (raw :: raws).map String.toList := by
      rw [List.map_map]
      exact List.map_congr_left fun r hr => (h r hr).trimmed
    have hfull : ((raw :: raws).map String.toList).filter (!·.isEmpty) = (raw :: raws).map String.toList := by
      refine List.filter_eq_self.mpr fun piece hpiece => ?_
      obtain ⟨r, hr, rfl⟩ := List.mem_map.mp hpiece
      simpa using (h r hr).full
    rw [hsplit, htrim, hfull, List.map_map]
    simp [Function.comp_def]

theorem splitPatterns_intercalate_iff :
    splitPatterns (",".intercalate raws) = raws ↔ ∀ raw ∈ raws, Tidy raw := by
  refine ⟨fun h raw hraw => ?_, splitPatterns_intercalate⟩
  rw [← h] at hraw
  exact tidy_of_mem hraw

/-- What is read from a text is read again from the text of it. -/
theorem splitPatterns_again (value : String) :
    splitPatterns (",".intercalate (splitPatterns value)) = splitPatterns value :=
  splitPatterns_intercalate fun _ h => tidy_of_mem h

example : splitPatterns " src/*.rs ,, a b,\t" = ["src/*.rs", "a b"] := by decide

end Fileset.Settings
