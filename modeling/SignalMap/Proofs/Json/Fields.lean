import Mathlib.Data.String.Basic
import SignalMap.Json.Basic

/-!
Fields by their names. A field is found under its name where no name stands twice, and
fields that are put in one after the other stand in the order of their names.
-/

namespace SignalMap.Fields

variable {fields : Fields} {name other : String} {value : Json} {field : String × Json}

theorem get?_eq_none_iff : Fields.get? fields name = none ↔ name ∉ fields.names := by
  induction fields with
  | nil => simp [Fields.get?, Fields.names]
  | cons field rest ih =>
    obtain ⟨n, v⟩ := field
    rw [Fields.get?]
    by_cases hname : name = n
    · simp [hname, Fields.names]
    · rw [if_neg hname, ih]
      simp [Fields.names, hname]

theorem mem_of_get? (h : Fields.get? fields name = some value) : (name, value) ∈ fields := by
  induction fields with
  | nil => cases h
  | cons field rest ih =>
    obtain ⟨n, v⟩ := field
    rw [Fields.get?] at h
    by_cases hname : name = n
    · rw [if_pos hname] at h
      cases h
      rw [hname]
      exact List.mem_cons_self
    · rw [if_neg hname] at h
      exact List.mem_cons_of_mem _ (ih h)

theorem mem_names_iff : name ∈ fields.names ↔ ∃ value, fields.get? name = some value := by
  rw [← Option.isSome_iff_exists, Option.isSome_iff_ne_none, ne_eq, get?_eq_none_iff, not_not]

/-- Where no name stands twice, every field is found under its name. -/
theorem get?_of_mem (h : fields.names.Nodup) (hfield : field ∈ fields) :
    Fields.get? fields field.1 = some field.2 := by
  induction fields with
  | nil => cases hfield
  | cons first rest ih =>
    obtain ⟨hfirst, hrest⟩ := List.nodup_cons.mp h
    rcases List.mem_cons.mp hfield with rfl | hmem
    · exact if_pos rfl
    · have hne : field.1 ≠ first.1 := by
        intro heq
        exact hfirst (heq ▸ List.mem_map_of_mem hmem)
      exact (if_neg hne).trans (ih hrest hmem)

theorem mem_names_insert :
    other ∈ (fields.insert name value).names ↔ other = name ∨ other ∈ fields.names := by
  rw [mem_names_iff, mem_names_iff]
  by_cases hname : other = name
  · simp [hname, get?_insert_self]
  · simp [hname, get?_insert_of_ne]

theorem mem_of_mem_insert (h : field ∈ fields.insert name value) :
    field = (name, value) ∨ field ∈ fields := by
  induction fields with
  | nil => exact Or.inl (List.mem_singleton.mp h)
  | cons first rest ih =>
    simp only [insert] at h
    split at h
    next =>
      rcases List.mem_cons.mp h with hfirst | hrest
      · exact Or.inl hfirst
      · exact Or.inr (List.mem_cons_of_mem first hrest)
    next =>
      split at h
      next => exact List.mem_cons.mp h
      next =>
        rcases List.mem_cons.mp h with hfirst | hrest
        · exact Or.inr (hfirst ▸ List.mem_cons_self)
        · exact (ih hrest).imp_right (List.mem_cons_of_mem first)

/-- Of two lists of fields the one that is put over the other is seen first. -/
theorem get?_foldl_insert (h : fields.names.Nodup) (scope : Fields) (name : String) :
    Fields.get? (fields.foldl (fun scope field => scope.insert field.1 field.2) scope) name =
      (Fields.get? fields name).or (Fields.get? scope name) := by
  induction fields generalizing scope with
  | nil => rfl
  | cons field rest ih =>
    obtain ⟨own, value⟩ := field
    obtain ⟨hown, hrest⟩ := List.nodup_cons.mp h
    rw [List.foldl_cons, ih hrest]
    by_cases hname : name = own
    · have hnone : Fields.get? rest name = none := get?_eq_none_iff.mpr (hname ▸ hown)
      have hself : Fields.get? ((own, value) :: rest) name = some value := if_pos hname
      rw [hnone, hself, hname, Fields.get?_insert_self]
      rfl
    · have hbehind : Fields.get? ((own, value) :: rest) name = Fields.get? rest name :=
        if_neg hname
      rw [hbehind, Fields.get?_insert_of_ne value scope hname]

/-! The order of names -/

def IsSorted (fields : Fields) : Prop :=
  fields.names.Pairwise (· < ·)

instance (fields : Fields) : Decidable fields.IsSorted :=
  inferInstanceAs (Decidable (fields.names.Pairwise (· < ·)))

theorem IsSorted.nodup (h : fields.IsSorted) : fields.names.Nodup := by
  refine h.imp ?_
  intro name other hlt
  exact ne_of_lt hlt

theorem IsSorted.insert (h : fields.IsSorted) (name : String) (value : Json) :
    (fields.insert name value).IsSorted := by
  induction fields with
  | nil => exact List.pairwise_singleton _ _
  | cons first rest ih =>
    obtain ⟨own, document⟩ := first
    obtain ⟨hfirst, hrest⟩ := List.pairwise_cons.mp h
    rw [Fields.insert]
    by_cases heq : name = own
    · rw [if_pos heq, heq]
      exact List.pairwise_cons.mpr ⟨hfirst, hrest⟩
    · rw [if_neg heq]
      by_cases hlt : name < own
      · rw [if_pos hlt]
        refine List.pairwise_cons.mpr ⟨?_, h⟩
        intro other hother
        rcases List.mem_cons.mp hother with rfl | hother
        · exact hlt
        · exact lt_trans hlt (hfirst other hother)
      · rw [if_neg hlt]
        refine List.pairwise_cons.mpr ⟨?_, ih hrest⟩
        intro other hother
        rcases mem_names_insert.mp hother with rfl | hother
        · exact lt_of_le_of_ne (not_lt.mp hlt) (Ne.symm heq)
        · exact hfirst other hother

theorem isSorted_foldl_insert (h : fields.IsSorted) (entries : List (String × Json)) :
    (entries.foldl (fun fields entry => fields.insert entry.1 entry.2) fields).IsSorted := by
  induction entries generalizing fields with
  | nil => exact h
  | cons entry rest ih => exact ih (h.insert entry.1 entry.2)

theorem isSorted_ofEntries (entries : List (String × Json)) : (ofEntries entries).IsSorted := by
  have hnil : IsSorted [] := List.Pairwise.nil
  exact isSorted_foldl_insert hnil entries

theorem mem_of_mem_foldl_insert {entries : List (String × Json)}
    (h : field ∈ entries.foldl (fun fields entry => fields.insert entry.1 entry.2) fields) :
    field ∈ fields ∨ field ∈ entries := by
  induction entries generalizing fields with
  | nil => exact Or.inl h
  | cons entry rest ih =>
    rcases ih h with hfields | hrest
    · rcases mem_of_mem_insert hfields with rfl | hfields
      · exact Or.inr List.mem_cons_self
      · exact Or.inl hfields
    · exact Or.inr (List.mem_cons_of_mem entry hrest)

theorem mem_of_mem_ofEntries {entries : List (String × Json)} (h : field ∈ ofEntries entries) :
    field ∈ entries := by
  rcases mem_of_mem_foldl_insert h with hnil | hentries
  · cases hnil
  · exact hentries

end SignalMap.Fields
