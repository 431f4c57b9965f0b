import Mathlib.Data.List.Basic
import SignalMap.FileTree
import SignalMap.Proofs.Lookup.Segments

/-!
The places that paths lead to, as far as their text tells. A path is walked name
by name from a place: single points stay, two points go back, and any other name
goes on. A joined path is walked part by part, unless its right part is absolute.
-/

namespace SignalMap.FilePath

def walk (place : List String) (p : FilePath) : List String :=
  p.components.foldl FileNode.goTo place

def place (p : FilePath) : List String :=
  p.walk []

def Below (root p : FilePath) : Prop :=
  ∃ names, names ≠ [] ∧ p.place = root.place ++ names

def walkChars (place : List String) (cs : List Char) : List String :=
  ((Text.splitOn '/' cs).map String.ofList).foldl FileNode.goTo place

theorem walk_eq_walkChars (place : List String) (p : FilePath) :
    p.walk place = walkChars place p.text.toList := rfl

theorem walkChars_nil (place : List String) : walkChars place [] = place := by
  simp [walkChars, Text.splitOn, FileNode.goTo]

theorem walkChars_append (place : List String) (left right : List Char) :
    walkChars place (left ++ '/' :: right) = walkChars (walkChars place left) right := by
  unfold walkChars
  rw [Text.splitOn_append, List.map_append, List.foldl_append]

theorem walkChars_of_slash_not_mem {name : List Char} (h : '/' ∉ name) (place : List String) :
    walkChars place name = FileNode.goTo place (String.ofList name) := by
  unfold walkChars
  rw [Text.splitOn_of_not_mem h]
  rfl

/-- A joined path whose right part is relative leads through its left part. -/
theorem walkChars_joinChars {left right : List Char} (h : isAbsoluteText right = false)
    (place : List String) :
    walkChars place (joinChars left right) = walkChars (walkChars place left) right := by
  unfold joinChars
  rw [if_neg (by simp [h])]
  by_cases hempty : left.isEmpty = true
  · rw [if_pos (by simp [hempty]), List.isEmpty_iff.mp hempty, walkChars_nil]
    rfl
  · by_cases hlast : left.getLast? = some '/'
    · obtain ⟨before, rfl⟩ := List.getLast?_eq_some_iff.mp hlast
      rw [if_pos (by simp), List.append_assoc, List.singleton_append, walkChars_append,
        walkChars_append, walkChars_nil]
    · rw [if_neg (by simpa [hempty] using hlast), walkChars_append]

theorem walk_join_of_relative {relative : String} (h : isAbsoluteText relative.toList = false)
    (base : FilePath) (place : List String) :
    (base.join relative).walk place = walk (base.walk place) ⟨relative⟩ := by
  unfold join
  rw [walk_eq_walkChars, String.toList_ofList]
  exact walkChars_joinChars h place

/-- An absolute right part takes the place of the left. -/
theorem joinChars_of_absolute {right : List Char} (h : isAbsoluteText right = true)
    (left : List Char) : joinChars left right = right := by
  unfold joinChars
  rw [if_pos h]

theorem join_of_absolute {relative : String} (h : isAbsoluteText relative.toList = true)
    (base : FilePath) : base.join relative = ⟨relative⟩ := by
  unfold join
  rw [joinChars_of_absolute h, String.ofList_toList]

theorem not_isAbsoluteText_of_slash_not_mem {cs : List Char} (h : '/' ∉ cs) :
    isAbsoluteText cs = false := by
  cases cs with
  | nil => rfl
  | cons c rest =>
    have hc : c ≠ '/' := fun hc => h (hc ▸ List.mem_cons_self)
    simp [isAbsoluteText, hc]

/-- A name without a slash is one step. -/
theorem walk_join_name {name : String} (h : '/' ∉ name.toList) (base : FilePath)
    (place : List String) :
    (base.join name).walk place = FileNode.goTo (base.walk place) name := by
  rw [walk_join_of_relative (not_isAbsoluteText_of_slash_not_mem h)]
  rw [walk_eq_walkChars, walkChars_of_slash_not_mem h, String.ofList_toList]

end SignalMap.FilePath
