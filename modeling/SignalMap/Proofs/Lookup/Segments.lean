import SignalMap.DataPath
import SignalMap.Proofs.Text.Splitting
import SignalMap.Proofs.Text.Trimming

/-!
Segments of data paths. A text is one clean segment when splitting leaves it as
it is. Splitting gives clean segments only, it goes through every slash, and it
takes apart again what was joined from clean segments.
-/

namespace SignalMap

namespace DataPath

def IsSegment (segment : String) : Prop :=
  split segment = [segment]

instance (segment : String) : Decidable (IsSegment segment) :=
  inferInstanceAs (Decidable (split segment = [segment]))

theorem split_append (path rest : String) :
    split (path ++ "/" ++ rest) = split path ++ split rest := by
  have htext : (path ++ "/" ++ rest).toList = path.toList ++ '/' :: rest.toList := by simp
  unfold split
  rw [htext, Text.splitOn_append]
  simp only [List.map_append, List.filter_append]

theorem isSegment_ofList {cs : List Char} (hne : cs ≠ []) (hslash : '/' ∉ cs)
    (htrim : Text.trimChars cs = cs) : IsSegment (String.ofList cs) := by
  unfold IsSegment split
  rw [String.toList_ofList, Text.splitOn_of_not_mem hslash]
  simp [htrim, hne]

theorem clean_of_mem_split {path segment : String} (h : segment ∈ split path) :
    segment.toList ≠ [] ∧ '/' ∉ segment.toList ∧
      Text.trimChars segment.toList = segment.toList := by
  obtain ⟨cs, hcs, rfl⟩ := List.mem_map.mp h
  obtain ⟨hcs, hne⟩ := List.mem_filter.mp hcs
  obtain ⟨piece, hpiece, rfl⟩ := List.mem_map.mp hcs
  rw [String.toList_ofList]
  refine ⟨by simpa using hne, ?_, Text.trimChars_trimChars piece⟩
  intro hslash
  exact Text.not_mem_of_mem_splitOn hpiece (Text.mem_of_mem_trimChars hslash)

/-- Splitting gives clean segments. -/
theorem isSegment_of_mem_split {path segment : String} (h : segment ∈ split path) :
    IsSegment segment := by
  obtain ⟨hne, hslash, htrim⟩ := clean_of_mem_split h
  have hsegment := isSegment_ofList hne hslash htrim
  rwa [String.ofList_toList] at hsegment

theorem IsSegment.clean {segment : String} (h : IsSegment segment) :
    segment.toList ≠ [] ∧ '/' ∉ segment.toList ∧
      Text.trimChars segment.toList = segment.toList := by
  have hmem : segment ∈ split segment := by
    rw [h]
    exact List.mem_singleton_self segment
  exact clean_of_mem_split hmem

theorem isSegment_placeholder : IsSegment placeholder := by
  decide

/-- What stands between the slashes of joined segments are the segments. -/
theorem splitOn_join {segments : List String} (hne : segments ≠ [])
    (h : ∀ segment ∈ segments, IsSegment segment) :
    Text.splitOn '/' (join segments).toList = segments.map String.toList := by
  unfold join
  rw [String.toList_ofList]
  refine Text.splitOn_intercalate (by simpa using hne) ?_
  intro piece hpiece
  obtain ⟨segment, hsegment, rfl⟩ := List.mem_map.mp hpiece
  exact (h segment hsegment).clean.2.1

/-- Clean segments that are joined are split again. -/
theorem split_join {segments : List String} (h : ∀ segment ∈ segments, IsSegment segment) :
    split (join segments) = segments := by
  cases segments with
  | nil => rfl
  | cons first rest =>
    have htrim : ((first :: rest).map String.toList).map Text.trimChars =
        (first :: rest).map String.toList := by
      rw [List.map_map]
      exact List.map_congr_left fun segment hsegment => (h segment hsegment).clean.2.2
    have hfilter : ((first :: rest).map String.toList).filter (fun cs => !cs.isEmpty) =
        (first :: rest).map String.toList := by
      refine List.filter_eq_self.mpr fun cs hcs => ?_
      obtain ⟨segment, hsegment, rfl⟩ := List.mem_map.mp hcs
      simpa using (h segment hsegment).clean.1
    unfold split
    rw [splitOn_join (List.cons_ne_nil _ _) h, htrim, hfilter, List.map_map]
    exact List.map_id'' (fun segment => String.ofList_toList) _

end DataPath

end SignalMap
