import SignalMap.Proofs.Text.Trimming
import SignalMap.Text.Cut

/-!
Splitting at a separator. The pieces hold all of the text but the separators, splitting
goes through every separator between two texts, and pieces without it that are joined
with it are split again. Blanks around a text are only put around its pieces.
-/

namespace SignalMap.Text

variable {sep : Char} {cs piece : List Char}

theorem splitOn_cons_of_ne {c : Char} (h : c ≠ sep) (cs : List Char) :
    splitOn sep (c :: cs) = (splitOn sep cs).modifyHead (c :: ·) := by
  rw [splitOn, if_neg h]
  cases hcs : splitOn sep cs with
  | nil => exact absurd hcs (splitOn_ne_nil sep cs)
  | cons piece pieces => rfl

/-- The pieces put together are the text without its separators. -/
theorem flatten_splitOn (sep : Char) (cs : List Char) :
    (splitOn sep cs).flatten = cs.filter (· ≠ sep) := by
  induction cs with
  | nil => rfl
  | cons first rest ih =>
    by_cases hfirst : first = sep
    · rw [splitOn, if_pos hfirst, List.flatten_cons, List.nil_append, ih,
        List.filter_cons_of_neg (by simpa using hfirst)]
    · rw [splitOn_cons_of_ne hfirst, List.filter_cons_of_pos (by simpa using hfirst), ← ih]
      cases hpieces : splitOn sep rest with
      | nil => exact absurd hpieces (splitOn_ne_nil sep rest)
      | cons head others => rfl

/-- In the pieces stands every character of the text that is no separator. -/
theorem exists_mem_splitOn_iff {c : Char} :
    (∃ piece ∈ splitOn sep cs, c ∈ piece) ↔ c ∈ cs ∧ c ≠ sep := by
  rw [← List.mem_flatten, flatten_splitOn, List.mem_filter, decide_eq_true_eq]

theorem count_flatten_splitOn {c : Char} (hc : c ≠ sep) (cs : List Char) :
    (splitOn sep cs).flatten.count c = cs.count c := by
  rw [flatten_splitOn, List.count_filter (by simpa using hc)]

theorem not_mem_of_mem_splitOn (h : piece ∈ splitOn sep cs) : sep ∉ piece := by
  intro hmem
  exact (exists_mem_splitOn_iff.mp ⟨piece, h, hmem⟩).2 rfl

theorem not_mem_of_pieces {c : Char} {pieces : List (List Char)} (hsplit : splitOn sep cs = pieces)
    (hc : c ≠ sep) (h : ∀ piece ∈ pieces, c ∉ piece) : c ∉ cs := by
  intro hmem
  obtain ⟨piece, hpiece, hin⟩ := exists_mem_splitOn_iff.mpr ⟨hmem, hc⟩
  exact h piece (hsplit ▸ hpiece) hin

theorem splitOn_of_not_mem (h : sep ∉ cs) : splitOn sep cs = [cs] := by
  induction cs with
  | nil => rfl
  | cons c rest ih =>
    have hc : c ≠ sep := fun hc => h (hc ▸ List.mem_cons_self)
    have hrest : sep ∉ rest := fun hrest => h (List.mem_cons_of_mem c hrest)
    rw [splitOn_cons_of_ne hc, ih hrest]
    rfl

/-- Splitting goes through a separator. -/
theorem splitOn_append (sep : Char) (xs ys : List Char) :
    splitOn sep (xs ++ sep :: ys) = splitOn sep xs ++ splitOn sep ys := by
  induction xs with
  | nil => simp [splitOn]
  | cons c rest ih =>
    rw [List.cons_append]
    by_cases hc : c = sep
    · rw [splitOn, if_pos hc, splitOn, if_pos hc, ih]
      rfl
    · rw [splitOn_cons_of_ne hc, splitOn_cons_of_ne hc, ih]
      cases hrest : splitOn sep rest with
      | nil => exact absurd hrest (splitOn_ne_nil sep rest)
      | cons first others => rfl

/-- Pieces without the separator that are joined with it are split again. -/
theorem splitOn_intercalate {pieces : List (List Char)} (hne : pieces ≠ [])
    (h : ∀ piece ∈ pieces, sep ∉ piece) :
    splitOn sep (List.intercalate [sep] pieces) = pieces := by
  induction pieces with
  | nil => exact absurd rfl hne
  | cons first rest ih =>
    obtain ⟨hfirst, hrest⟩ := List.forall_mem_cons.mp h
    cases rest with
    | nil => rw [List.intercalate_singleton, splitOn_of_not_mem hfirst]
    | cons second rest =>
      rw [List.intercalate_cons_cons, List.append_assoc, List.singleton_append, splitOn_append,
        splitOn_of_not_mem hfirst, ih (List.cons_ne_nil _ _) hrest]
      rfl

/-! Blanks around a text that is split -/

theorem forall₂_modifyHead {α β : Type} {R : α → β → Prop} {f : α → α} {g : β → β}
    {xs : List α} {ys : List β} (h : List.Forall₂ R xs ys) (hhead : ∀ x y, R x y → R (f x) (g y)) :
    List.Forall₂ R (xs.modifyHead f) (ys.modifyHead g) := by
  cases h with
  | nil => exact .nil
  | cons hfirst hothers => exact .cons (hhead _ _ hfirst) hothers

/-- Blanks on the right end up in the last piece. -/
theorem splitOn_append_blank {right : List Char} (hsep : isBlank sep = false)
    (hright : right.all isBlank) (cs : List Char) :
    List.Forall₂ (fun piece padded => ∃ blanks, blanks.all isBlank ∧ padded = piece ++ blanks)
      (splitOn sep cs) (splitOn sep (cs ++ right)) := by
  induction cs with
  | nil =>
    rw [List.nil_append, splitOn_of_not_mem (not_mem_of_blank hright hsep)]
    exact .cons ⟨right, hright, rfl⟩ .nil
  | cons c rest ih =>
    rw [List.cons_append]
    by_cases hc : c = sep
    · rw [splitOn, if_pos hc, splitOn, if_pos hc]
      exact .cons ⟨[], rfl, rfl⟩ ih
    · rw [splitOn_cons_of_ne hc, splitOn_cons_of_ne hc]
      refine forall₂_modifyHead ih ?_
      rintro piece _ ⟨blanks, hblanks, rfl⟩
      exact ⟨blanks, hblanks, rfl⟩

theorem Padded.splitOn {padded : List Char} (h : Padded cs padded) (hsep : isBlank sep = false) :
    List.Forall₂ Padded (splitOn sep cs) (splitOn sep padded) := by
  obtain ⟨left, right, hleft, hright, rfl⟩ := h
  rw [List.append_assoc]
  induction left with
  | nil =>
    refine (splitOn_append_blank hsep hright cs).imp ?_
    rintro piece _ ⟨blanks, hblanks, rfl⟩
    exact ⟨[], blanks, rfl, hblanks, rfl⟩
  | cons c left ih =>
    rw [List.all_cons, Bool.and_eq_true] at hleft
    have hc : c ≠ sep := by
      rintro rfl
      rw [hleft.1] at hsep
      cases hsep
    have hpieces := forall₂_modifyHead (f := id) (g := (c :: ·)) (ih hleft.2) fun _ _ hpadded =>
      hpadded.cons hleft.1
    rw [List.modifyHead_id] at hpieces
    rw [List.cons_append, splitOn_cons_of_ne hc]
    exact hpieces

end SignalMap.Text
