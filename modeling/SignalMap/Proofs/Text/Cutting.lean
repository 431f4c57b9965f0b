import Mathlib.Data.List.Infix
import SignalMap.Text.Cut

/-!
Where a text is cut. It is cut at the first place where the mark stands: the mark
is not already there in the part before it followed by all but the last character
of the mark.
-/

namespace SignalMap.Text

variable {mark cs before after : List Char}

theorem cutAt_eq_none_iff : cutAt mark cs = none ↔ ¬ mark <:+: cs := by
  induction cs with
  | nil => simp [cutAt]
  | cons c rest ih =>
    rw [cutAt, List.infix_cons_iff, ← List.isPrefixOf_iff_prefix]
    by_cases hlead : mark.isPrefixOf (c :: rest) = true
    · simp [hlead]
    · simp [hlead, ih]

theorem isSome_cutAt_iff : (cutAt mark cs).isSome = true ↔ mark <:+: cs := by
  rw [Option.isSome_iff_ne_none, ne_eq, cutAt_eq_none_iff, not_not]

theorem not_infix_dropLast (hmark : mark ≠ []) : ¬ mark <:+: mark.dropLast := by
  intro h
  have hlength := h.length_le
  have hpos := List.length_pos_iff.mpr hmark
  rw [List.length_dropLast] at hlength
  omega

theorem append_dropLast_isPrefix : before ++ mark.dropLast <+: before ++ mark ++ after := by
  rw [List.append_assoc, List.prefix_append_right_inj]
  exact (List.dropLast_prefix mark).trans (List.prefix_append mark after)

/-- A mark at the very front ends in front of the end of a mark that comes later. -/
theorem prefix_of_prefix_append {c : Char} (h : mark <+: c :: before ++ mark ++ after) :
    mark <+: c :: before ++ mark.dropLast := by
  refine List.prefix_of_prefix_length_le h append_dropLast_isPrefix ?_
  simp only [List.length_append, List.length_cons, List.length_dropLast]
  omega

/-- No mark ends in front of the end of the one that was found. -/
theorem not_infix_of_cutAt (hmark : mark ≠ []) (h : cutAt mark cs = some (before, after)) :
    ¬ mark <:+: before ++ mark.dropLast := by
  induction cs generalizing before with
  | nil => simp [cutAt, hmark] at h
  | cons c rest ih =>
    have hwhole := eq_append_of_cutAt h
    rw [cutAt] at h
    by_cases hlead : mark.isPrefixOf (c :: rest) = true
    · rw [if_pos hlead] at h
      cases h
      exact not_infix_dropLast hmark
    · rw [if_neg hlead] at h
      obtain ⟨⟨first, others⟩, hrest, hpair⟩ := Option.map_eq_some_iff.mp h
      cases hpair
      rw [List.cons_append, List.infix_cons_iff]
      rintro (hfront | hlater)
      · -- a mark at the front would have been found there
        apply hlead
        rw [List.isPrefixOf_iff_prefix, hwhole]
        exact hfront.trans (@append_dropLast_isPrefix mark (c :: first) after)
      · exact ih hrest hlater

theorem cutAt_append (hmark : mark ≠ []) (h : ¬ mark <:+: before ++ mark.dropLast)
    (after : List Char) : cutAt mark (before ++ mark ++ after) = some (before, after) := by
  induction before with
  | nil =>
    obtain ⟨c, more, rfl⟩ := List.exists_cons_of_ne_nil hmark
    rw [List.nil_append, List.cons_append, cutAt, if_pos (by simp)]
    simp
  | cons c before ih =>
    have hnot : ¬ mark.isPrefixOf (c :: (before ++ mark ++ after)) = true := by
      intro hlead
      exact h (prefix_of_prefix_append (List.isPrefixOf_iff_prefix.mp hlead)).isInfix
    have hlater : ¬ mark <:+: before ++ mark.dropLast := by
      intro hinfix
      exact h (List.infix_cons hinfix)
    rw [List.cons_append, List.cons_append, cutAt, if_neg hnot, ih hlater]
    rfl

theorem cutAt_single {c : Char} (h : c ∉ before) (after : List Char) :
    cutAt [c] (before ++ c :: after) = some (before, after) := by
  have hnone : ¬ [c] <:+: before ++ [c].dropLast := by
    rw [List.dropLast_singleton, List.append_nil, List.singleton_infix_iff]
    exact h
  have hcut := cutAt_append (List.cons_ne_nil c []) hnone after
  rwa [List.append_assoc, List.singleton_append] at hcut

/-- A mark of one character twice is not finished by one of them where there was none. -/
theorem not_infix_doubled {c : Char} (h : c ∉ cs) : ¬ [c, c] <:+: cs ++ [c] := by
  intro hinfix
  have hcount : [c, c].count c ≤ (cs ++ [c]).count c := hinfix.sublist.count_le c
  have htwo : [c, c].count c = 2 := by simp
  have hone : [c].count c = 1 := by simp
  rw [List.count_append, List.count_eq_zero.mpr h] at hcount
  omega

theorem cutAt_doubled {c : Char} (h : c ∉ before) (after : List Char) :
    cutAt [c, c] (before ++ [c, c] ++ after) = some (before, after) :=
  cutAt_append (List.cons_ne_nil c [c]) (not_infix_doubled h) after

/-- What is found in two texts is found in the first one if its last character is not
in the second. -/
theorem infix_of_infix_append {front : List Char} {c : Char} (h : c ∉ after)
    (hfound : front ++ [c] <:+: before ++ after) : front ++ [c] <:+: before := by
  obtain ⟨left, right, hwhole⟩ := hfound
  rcases List.append_eq_append_iff.mp hwhole with ⟨rest, hbefore, _⟩ | ⟨rest, hsplit, hafter⟩
  · exact ⟨left, rest, hbefore.symm⟩
  · rcases List.eq_nil_or_concat rest with rfl | ⟨others, d, rfl⟩
    · exact ⟨left, [], by simpa using hsplit⟩
    · have hends : left ++ front ++ [c] = before ++ others ++ [d] := by simpa using hsplit
      have hd : c = d := by simpa using (List.append_inj' hends rfl).2
      apply absurd _ h
      rw [hafter, hd]
      simp

theorem dropLead?_eq_some_iff {lead rest : List Char} :
    dropLead? lead cs = some rest ↔ cs = lead ++ rest := by
  unfold dropLead?
  constructor
  · intro h
    obtain ⟨hlead, hrest⟩ := Option.ite_none_right_eq_some.mp h
    obtain ⟨others, rfl⟩ := List.isPrefixOf_iff_prefix.mp hlead
    rw [List.drop_left] at hrest
    cases hrest
    rfl
  · rintro rfl
    rw [if_pos (List.isPrefixOf_iff_prefix.mpr (List.prefix_append lead rest)), List.drop_left]

theorem dropTail?_eq_some_iff {tail rest : List Char} :
    dropTail? tail cs = some rest ↔ cs = rest ++ tail := by
  unfold dropTail?
  constructor
  · intro h
    obtain ⟨htail, hrest⟩ := Option.ite_none_right_eq_some.mp h
    obtain ⟨others, rfl⟩ := List.isSuffixOf_iff_suffix.mp htail
    rw [List.length_append, Nat.add_sub_cancel, List.take_left] at hrest
    cases hrest
    rfl
  · rintro rfl
    rw [if_pos (List.isSuffixOf_iff_suffix.mpr (List.suffix_append rest tail)),
      List.length_append, Nat.add_sub_cancel, List.take_left]

end SignalMap.Text
