import SignalMap.Proofs.Lookup.Segments

/-!
Noise in data paths. Blanks around a segment, slashes in a row or at an end of the path
and blanks alone between two slashes do not matter. A text carries the segments that are
left without this noise. Every text carries some, splitting gives exactly these, and
joining writes them without noise.
-/

namespace SignalMap

namespace DataPath

variable {path padded segment : String} {segments : List String}

def IsClean (segment : String) : Prop :=
  segment ≠ "" ∧ '/' ∉ segment.toList ∧ Text.trim segment = segment

instance (segment : String) : Decidable (IsClean segment) :=
  inferInstanceAs (Decidable
    (segment ≠ "" ∧ '/' ∉ segment.toList ∧ Text.trim segment = segment))

/-- The path holds the segments in this order: what stands between its slashes is blank,
or is one of the segments with blanks around it. -/
inductive Carries : String → List String → Prop
  | blank {path : String} (hblank : Text.isBlankText path = true) : Carries path []
  | segment {path segment : String} (hclean : IsClean segment)
      (hpadded : Text.Padded segment.toList path.toList) : Carries path [segment]
  | slash {path other : String} {segments others : List String}
      (hpath : Carries path segments) (hother : Carries other others) :
      Carries (path ++ "/" ++ other) (segments ++ others)

/-- Clean texts are those that splitting leaves as they are. -/
theorem isSegment_iff_isClean : IsSegment segment ↔ IsClean segment := by
  constructor
  · intro h
    obtain ⟨hne, hslash, htrim⟩ := h.clean
    refine ⟨?_, hslash, Text.trim_eq_self_iff.mpr htrim⟩
    rintro rfl
    exact hne rfl
  · rintro ⟨hne, hslash, htrim⟩
    have hchars : segment.toList ≠ [] := by simpa using hne
    have hsegment := isSegment_ofList hchars hslash (Text.trim_eq_self_iff.mp htrim)
    rwa [String.ofList_toList] at hsegment

/-- Blanks around a path do not matter. -/
theorem split_of_padded (h : Text.Padded path.toList padded.toList) :
    split padded = split path := by
  have hpieces : List.Forall₂ Text.Padded (Text.splitOn '/' path.toList)
      (Text.splitOn '/' padded.toList) := h.splitOn (by decide)
  unfold split
  rw [Text.map_trimChars_of_padded hpieces]

theorem split_of_carries (h : Carries path segments) : split path = segments := by
  induction h with
  | @blank path hblank =>
    have hpadded : Text.Padded "".toList path.toList := Text.Padded.nil_iff.mpr hblank
    exact split_of_padded hpadded
  | segment hclean hpadded =>
    rw [split_of_padded hpadded]
    exact isSegment_iff_isClean.mpr hclean
  | slash _ _ ihpath ihother => rw [split_append, ihpath, ihother]

/-! Every text carries segments -/

theorem isClean_trim (hslash : '/' ∉ path.toList) (hne : Text.trimChars path.toList ≠ []) :
    IsClean (Text.trim path) := by
  rw [← Text.toList_trim] at hne
  refine ⟨?_, ?_, ?_⟩
  · intro hempty
    rw [hempty] at hne
    exact hne rfl
  · rw [Text.toList_trim]
    exact fun hmem => hslash (Text.mem_of_mem_trimChars hmem)
  · rw [Text.trim_eq_self_iff, Text.toList_trim]
    exact Text.trimChars_trimChars path.toList

theorem exists_carries_of_slash_not_mem (hslash : '/' ∉ path.toList) :
    ∃ segments, Carries path segments := by
  have hpadded := Text.Padded.of_trimChars path.toList
  by_cases hnil : Text.trimChars path.toList = []
  · rw [hnil] at hpadded
    exact ⟨[], .blank (Text.Padded.nil_iff.mp hpadded)⟩
  · rw [← Text.toList_trim] at hpadded
    exact ⟨[Text.trim path], .segment (isClean_trim hslash hnil) hpadded⟩

/-- The induction is on the pieces between the slashes: joining puts a slash in front of
every piece but the first. -/
theorem exists_carries_of_pieces {pieces : List (List Char)} (hne : pieces ≠ [])
    (h : ∀ piece ∈ pieces, '/' ∉ piece) :
    ∃ segments, Carries (String.ofList (List.intercalate ['/'] pieces)) segments := by
  induction pieces with
  | nil => exact absurd rfl hne
  | cons first rest ih =>
    obtain ⟨hfirst, hrest⟩ := List.forall_mem_cons.mp h
    obtain ⟨front, hfront⟩ : ∃ segments, Carries (String.ofList first) segments :=
      exists_carries_of_slash_not_mem (by rwa [String.toList_ofList])
    cases rest with
    | nil =>
      rw [List.intercalate_singleton]
      exact ⟨front, hfront⟩
    | cons second rest =>
      obtain ⟨others, hothers⟩ := ih (List.cons_ne_nil _ _) hrest
      rw [List.intercalate_cons_cons, String.ofList_append, String.ofList_append]
      exact ⟨front ++ others, .slash hfront hothers⟩

theorem exists_carries (path : String) : ∃ segments, Carries path segments := by
  have hpieces := exists_carries_of_pieces (Text.splitOn_ne_nil '/' path.toList)
    fun _ hpiece => Text.not_mem_of_mem_splitOn hpiece
  rwa [Text.intercalate_splitOn, String.ofList_toList] at hpieces

/-- Splitting gives the segments that a path carries, so no path carries others. -/
theorem split_eq_iff_carries : split path = segments ↔ Carries path segments := by
  constructor
  · rintro rfl
    obtain ⟨segments, hsegments⟩ := exists_carries path
    rwa [split_of_carries hsegments]
  · exact split_of_carries

/-- Splitting and joining are inverse but for the noise: splitting goes through every
slash and gives clean segments, those that the path carries, and clean segments that are
joined are split again. So a path that was split and joined once has no noise left. -/
theorem split_join_up_to_noise :
    (∀ path other, split (path ++ "/" ++ other) = split path ++ split other) ∧
    (∀ path, ∀ segment ∈ split path, IsClean segment) ∧
    (∀ segments, (∀ segment ∈ segments, IsClean segment) → split (join segments) = segments) ∧
    (∀ path, join (split (join (split path))) = join (split path)) ∧
    ∀ path segments, split path = segments ↔ Carries path segments := by
  have hclean : ∀ path, ∀ segment ∈ split path, IsClean segment := by
    intro path segment hsegment
    exact isSegment_iff_isClean.mp (isSegment_of_mem_split hsegment)
  have hagain : ∀ segments, (∀ segment ∈ segments, IsClean segment) →
      split (join segments) = segments := by
    intro segments hsegments
    exact split_join fun segment hsegment =>
      isSegment_iff_isClean.mpr (hsegments segment hsegment)
  have hidempotent : ∀ path, join (split (join (split path))) = join (split path) := by
    intro path
    rw [hagain (split path) (hclean path)]
  exact ⟨split_append, hclean, hagain, hidempotent, fun _ _ => split_eq_iff_carries⟩

def noisyCoil : String := "//\u2003coil\t/ \u00A0 /# 1\u3000"

def noisyPi : String := " /\u2028/π / 3\r\n/"

theorem split_join_up_to_noise_coil :
    split (noisyCoil ++ "/" ++ noisyPi) = split noisyCoil ++ split noisyPi ∧
      split noisyCoil ++ split noisyPi = ["coil", "# 1", "π", "3"] ∧
      (∀ segment ∈ ["coil", "# 1", "π", "3"], IsClean segment) ∧
      split (join ["coil", "# 1", "π", "3"]) = ["coil", "# 1", "π", "3"] ∧
      join (split (join (split noisyCoil))) = "coil/# 1" ∧
      Carries noisyCoil ["coil", "# 1"] := by
  obtain ⟨hslash, _, hagain, hidempotent, hcarries⟩ := split_join_up_to_noise
  have hcoil : split noisyCoil = ["coil", "# 1"] := by decide
  have hpi : split noisyPi = ["π", "3"] := by decide
  have hclean : ∀ segment ∈ ["coil", "# 1", "π", "3"], IsClean segment := by decide
  refine ⟨hslash _ _, ?_, hclean, hagain _ hclean, ?_, (hcarries _ _).mp hcoil⟩
  · rw [hcoil, hpi]
    rfl
  · rw [hidempotent, hcoil]
    decide

end DataPath

end SignalMap
