import Mathlib.Data.List.DropRight
import Mathlib.Data.List.Forall2
import SignalMap.Text.Blank

/-!
Trimmed texts. Trimming takes blanks away until a character that is not blank
stands at either end, and nothing else: every other character is kept, as often as it
was there, and blanks around a text do not matter.
-/

namespace SignalMap.Text

variable {p : Char → Bool} {c : Char} {cs left right : List Char}

theorem not_isBlank_of_graphic (hlow : 33 ≤ c.toNat) (hhigh : c.toNat ≤ 126) :
    ¬ isBlank c := by
  intro hblank
  simp only [isBlank, Bool.or_eq_true, Bool.and_eq_true, decide_eq_true_eq, beq_iff_eq] at hblank
  omega

/-- A character that is kept keeps its place. -/
theorem dropRightWhile_cons (h : p c = false) (cs : List Char) :
    dropRightWhile p (c :: cs) = c :: dropRightWhile p cs := by
  unfold dropRightWhile
  rw [List.reverse_cons, List.dropWhile_append]
  split
  next hempty =>
    rw [List.isEmpty_iff.mp hempty]
    simp [h]
  next => simp

theorem trimChars_trimChars (cs : List Char) : trimChars (trimChars cs) = trimChars cs := by
  unfold trimChars
  cases h : cs.dropWhile isBlank with
  | nil => rfl
  | cons c rest =>
    have hc : isBlank c = false := by
      have hhead := List.head?_dropWhile_not isBlank cs
      rw [h] at hhead
      exact hhead
    rw [dropRightWhile_cons hc, List.dropWhile_cons_of_neg (by simp [hc]), dropRightWhile_cons hc]
    exact congrArg (c :: ·) (List.rdropWhile_idempotent isBlank rest)

theorem not_mem_of_blank (h : cs.all isBlank) (hc : isBlank c = false) : c ∉ cs := by
  intro hmem
  have hblank : isBlank c = true := List.all_eq_true.mp h c hmem
  exact absurd hblank (by simp [hc])

theorem exists_blanks (cs : List Char) :
    ∃ left right, cs = left ++ trimChars cs ++ right ∧ left.all isBlank ∧ right.all isBlank := by
  refine ⟨cs.takeWhile isBlank, ((cs.dropWhile isBlank).reverse.takeWhile isBlank).reverse,
    ?_, List.all_takeWhile, ?_⟩
  · unfold trimChars dropRightWhile
    rw [List.append_assoc, ← List.reverse_append, List.takeWhile_append_dropWhile,
      List.reverse_reverse, List.takeWhile_append_dropWhile]
  · rw [List.all_reverse]
    exact List.all_takeWhile

theorem mem_of_mem_trimChars (h : c ∈ trimChars cs) : c ∈ cs := by
  obtain ⟨left, right, hcs, _, _⟩ := exists_blanks cs
  rw [hcs]
  exact List.mem_append_left right (List.mem_append_right left h)

theorem mem_trimChars_of_not_blank (h : c ∈ cs) (hc : isBlank c = false) : c ∈ trimChars cs := by
  obtain ⟨left, right, hcs, hleft, hright⟩ := exists_blanks cs
  rw [hcs, List.mem_append, List.mem_append] at h
  rcases h with (h | h) | h
  · exact absurd h (not_mem_of_blank hleft hc)
  · exact h
  · exact absurd h (not_mem_of_blank hright hc)

/-- A text without blanks is trimmed. -/
theorem trimChars_of_not_blank (h : ∀ c ∈ cs, ¬ isBlank c) : trimChars cs = cs := by
  have hnil : ∀ blanks : List Char, blanks.all isBlank → (∀ c ∈ blanks, c ∈ cs) → blanks = [] := by
    intro blanks hblanks hmem
    apply List.eq_nil_iff_forall_not_mem.mpr
    intro c hc
    exact h c (hmem c hc) (List.all_eq_true.mp hblanks c hc)
  obtain ⟨left, right, hcs, hleft, hright⟩ := exists_blanks cs
  have hleft' : left = [] := by
    apply hnil left hleft
    intro c hc
    rw [hcs]
    simp [hc]
  have hright' : right = [] := by
    apply hnil right hright
    intro c hc
    rw [hcs]
    simp [hc]
  rw [hleft', hright', List.nil_append, List.append_nil] at hcs
  exact hcs.symm

theorem dropRightWhile_append (cs : List Char) (h : right.all p) :
    dropRightWhile p (cs ++ right) = dropRightWhile p cs := by
  unfold dropRightWhile
  rw [List.reverse_append, List.dropWhile_append_of_pos]
  intro c hc
  exact List.all_eq_true.mp h c (List.mem_reverse.mp hc)

/-- Blanks around a text do not matter. -/
theorem trimChars_append (cs : List Char) (hleft : left.all isBlank) (hright : right.all isBlank) :
    trimChars (left ++ cs ++ right) = trimChars cs := by
  unfold trimChars
  rw [List.append_assoc, List.dropWhile_append_of_pos (List.all_eq_true.mp hleft),
    List.dropWhile_append]
  by_cases hempty : (cs.dropWhile isBlank).isEmpty = true
  · rw [if_pos hempty, List.isEmpty_iff.mp hempty,
      List.dropWhile_eq_nil_iff.mpr (List.all_eq_true.mp hright)]
  · rw [if_neg hempty, dropRightWhile_append _ hright]

theorem toList_trim (s : String) : (trim s).toList = trimChars s.toList :=
  String.toList_ofList

theorem trim_eq_self_iff {s : String} : trim s = s ↔ trimChars s.toList = s.toList := by
  rw [← String.toList_inj, toList_trim]

theorem dropWhile_of_not_mem {mark : Char} (h : mark ∉ cs) : cs.dropWhile (· == mark) = cs := by
  cases cs with
  | nil => rfl
  | cons c rest =>
    have hc : c ≠ mark := fun hc => h (hc ▸ List.mem_cons_self)
    exact List.dropWhile_cons_of_neg (by simpa using hc)

theorem dropRightWhile_of_not_mem {mark : Char} (h : mark ∉ cs) :
    dropRightWhile (· == mark) cs = cs := by
  unfold dropRightWhile
  rw [dropWhile_of_not_mem (List.mem_reverse.not.mpr h), List.reverse_reverse]

/-! How often a character is there -/

theorem count_dropWhile (hc : p c = false) (cs : List Char) :
    (cs.dropWhile p).count c = cs.count c := by
  have hdropped : c ∉ cs.takeWhile p := by
    intro hmem
    rw [List.mem_takeWhile_imp hmem] at hc
    cases hc
  calc
    (cs.dropWhile p).count c = (cs.takeWhile p).count c + (cs.dropWhile p).count c := by
      rw [List.count_eq_zero.mpr hdropped, Nat.zero_add]
    _ = cs.count c := by rw [← List.count_append, List.takeWhile_append_dropWhile]

theorem count_dropRightWhile (hc : p c = false) (cs : List Char) :
    (dropRightWhile p cs).count c = cs.count c := by
  unfold dropRightWhile
  rw [List.count_reverse, count_dropWhile hc, List.count_reverse]

theorem count_trimChars (hc : isBlank c = false) (cs : List Char) :
    (trimChars cs).count c = cs.count c := by
  unfold trimChars
  rw [count_dropRightWhile hc, count_dropWhile hc]

/-! Texts with blanks around them -/

def Padded (cs padded : List Char) : Prop :=
  ∃ left right, left.all isBlank ∧ right.all isBlank ∧ padded = left ++ cs ++ right

namespace Padded

variable {padded : List Char}

theorem trimChars_eq (h : Padded cs padded) : trimChars padded = trimChars cs := by
  obtain ⟨left, right, hleft, hright, rfl⟩ := h
  exact trimChars_append cs hleft hright

theorem refl (cs : List Char) : Padded cs cs :=
  ⟨[], [], rfl, rfl, by simp⟩

theorem of_trimChars (cs : List Char) : Padded (trimChars cs) cs := by
  obtain ⟨left, right, hcs, hleft, hright⟩ := exists_blanks cs
  exact ⟨left, right, hleft, hright, hcs⟩

theorem nil_iff : Padded [] padded ↔ padded.all isBlank := by
  constructor
  · rintro ⟨left, right, hleft, hright, rfl⟩
    rw [List.append_nil, List.all_append, hleft, hright]
    rfl
  · intro hblank
    exact ⟨padded, [], hblank, rfl, by simp⟩

/-- Around a text stand blanks only. -/
theorem mem (h : Padded cs padded) (hc : isBlank c = false) (hmem : c ∈ padded) : c ∈ cs := by
  obtain ⟨left, right, hleft, hright, rfl⟩ := h
  rcases List.mem_append.mp hmem with hmem | hmem
  · rcases List.mem_append.mp hmem with hmem | hmem
    · exact absurd hmem (not_mem_of_blank hleft hc)
    · exact hmem
  · exact absurd hmem (not_mem_of_blank hright hc)

theorem cons (h : Padded cs padded) (hc : isBlank c = true) : Padded cs (c :: padded) := by
  obtain ⟨left, right, hleft, hright, rfl⟩ := h
  exact ⟨c :: left, right, by simp [hc, hleft], hright, rfl⟩

end Padded

theorem map_trimChars_of_padded {pieces padded : List (List Char)}
    (h : List.Forall₂ Padded pieces padded) :
    padded.map trimChars = pieces.map trimChars := by
  induction h with
  | nil => rfl
  | cons hfirst _ ih => rw [List.map_cons, List.map_cons, hfirst.trimChars_eq, ih]

end SignalMap.Text
