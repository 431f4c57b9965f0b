import SignalMap.Proofs.Result
import SignalMap.Proofs.Text.Cutting
import SignalMap.Proofs.Text.Trimming
import SignalMap.Template

/-!
The templates of a text, found from left to right. A template goes from an opening
to the next closing, whatever stands in between, and the search goes on behind it.
A text is one template alone exactly when it is one between its two ends and the
closing at its end is the first one.
-/

namespace SignalMap.Template

structure Occurrence where
  before : List Char
  inside : List Char

namespace Occurrence

def name (o : Occurrence) : List Char :=
  Text.trimChars o.inside

def text (o : Occurrence) : List Char :=
  opening ++ o.inside ++ closing

end Occurrence

/-- The templates of a text, each from an opening to the next closing behind it,
and the text behind the last one. -/
def scan (rest : List Char) : List Occurrence × List Char :=
  match _found : Text.cutAt opening rest with
  | none => ([], rest)
  | some (before, opened) =>
    match _closed : Text.cutAt closing opened with
    | none => ([], rest)
    | some (inside, after) => (⟨before, inside⟩ :: (scan after).1, (scan after).2)
termination_by rest.length
decreasing_by
  all_goals
    have h₁ := congrArg List.length (Text.eq_append_of_cutAt _found)
    have h₂ := congrArg List.length (Text.eq_append_of_cutAt _closed)
    simp only [List.length_append, opening, closing, List.length_cons, List.length_nil] at h₁ h₂
    omega

section Scan

variable {rest before opened inside after : List Char}

theorem scan_of_not_found (h : Text.cutAt opening rest = none) : scan rest = ([], rest) := by
  fun_cases scan rest with
  | case1 => rfl
  | case2 before opened hfound => cases h.symm.trans hfound
  | case3 before opened hfound => cases h.symm.trans hfound

theorem scan_of_not_closed (hfound : Text.cutAt opening rest = some (before, opened))
    (hclosed : Text.cutAt closing opened = none) : scan rest = ([], rest) := by
  fun_cases scan rest with
  | case1 => rfl
  | case2 => rfl
  | case3 _ _ h _ _ hinside =>
    cases hfound.symm.trans h
    cases hclosed.symm.trans hinside

theorem scan_of_found (hfound : Text.cutAt opening rest = some (before, opened))
    (hclosed : Text.cutAt closing opened = some (inside, after)) :
    scan rest = (⟨before, inside⟩ :: (scan after).1, (scan after).2) := by
  fun_cases scan rest with
  | case1 h => cases hfound.symm.trans h
  | case2 _ _ h hunclosed =>
    cases hfound.symm.trans h
    cases hclosed.symm.trans hunclosed
  | case3 _ _ h _ _ hinside =>
    cases hfound.symm.trans h
    cases hclosed.symm.trans hinside
    rfl

end Scan

/-! What is found in a text -/

def assemble (texts : List (List Char)) (found : List Occurrence × List Char) : List Char :=
  (List.zipWith (fun o text => o.before ++ text) found.1 texts).flatten ++ found.2

/-- Nothing is lost: the templates in their own places are the text. -/
theorem assemble_scan (cs : List Char) :
    assemble ((scan cs).1.map Occurrence.text) (scan cs) = cs := by
  fun_induction scan cs with
  | case1 => rfl
  | case2 => rfl
  | case3 rest before opened hfound inside after hclosed ih =>
    have hrest := Text.eq_append_of_cutAt hfound
    have hopened := Text.eq_append_of_cutAt hclosed
    calc
      _ = before ++ (opening ++ inside ++ closing) ++
          assemble ((scan after).1.map Occurrence.text) (scan after) := by
        simp [assemble, Occurrence.text]
      _ = before ++ opening ++ (inside ++ closing ++ after) := by
        rw [ih]
        simp
      _ = rest := by rw [← hopened, ← hrest]

def IsAlone (cs : List Char) : Prop :=
  ∃ o rest, scan cs = ([o], rest) ∧ o.before.all Text.isBlank ∧ rest.all Text.isBlank

theorem closing_infix_snoc_iff {inside : List Char} :
    closing <:+: inside ++ ['}'] ↔ closing <:+: inside ∨ inside.getLast? = some '}' := by
  rw [List.infix_concat_iff, or_comm]
  refine or_congr_right ?_
  rw [show closing = ['}'] ++ ['}'] from rfl, List.suffix_append_inj_of_length_eq rfl]
  simp [List.singleton_suffix_iff_getLast?_eq_some]

/-! The two ends of a text -/

section Ends

variable {cs inside : List Char}

theorem trimChars_template (inside : List Char) :
    Text.trimChars (opening ++ inside ++ closing) = opening ++ inside ++ closing := by
  have hlast : opening ++ inside ++ closing = (opening ++ inside ++ ['}']) ++ ['}'] := by
    simp [closing]
  have hfirst : (opening ++ inside ++ closing).dropWhile Text.isBlank =
      opening ++ inside ++ closing :=
    List.dropWhile_cons_of_neg (by decide)
  unfold Text.trimChars
  rw [hfirst, hlast]
  exact Text.dropRightWhile_of_last (by decide)

theorem whole?_eq_some_iff {name : List Char} :
    whole? cs = some name ↔
      ∃ inside, Text.trimChars cs = opening ++ inside ++ closing ∧ ¬ opening <:+: inside ∧
        ¬ closing <:+: inside ∧ Text.trimChars inside = name := by
  unfold whole?
  simp only [Option.bind_eq_bind, Option.bind_eq_some_iff, Text.dropLead?_eq_some_iff,
    Text.dropTail?_eq_some_iff, Bool.or_eq_true, Text.isSome_cutAt_iff]
  constructor
  · rintro ⟨_, htrim, inside, rfl, h⟩
    obtain ⟨hnone, hname⟩ := Option.ite_none_left_eq_some.mp h
    rw [not_or] at hnone
    refine ⟨inside, ?_, hnone.1, hnone.2, Option.some.inj hname⟩
    rw [htrim, List.append_assoc]
  · rintro ⟨inside, htrim, hopening, hclosing, rfl⟩
    refine ⟨inside ++ closing, ?_, inside, rfl, if_neg (not_or.mpr ⟨hopening, hclosing⟩)⟩
    rw [htrim, List.append_assoc]

/-- A text that is one template has its closing where the first one ends. -/
theorem closing_first_of_scan {o : Occurrence} {rest : List Char} (h : scan cs = ([o], rest)) :
    ¬ closing <:+: o.inside ++ ['}'] := by
  revert h
  fun_cases scan cs with
  | case1 =>
    intro h
    cases h
  | case2 =>
    intro h
    cases h
  | case3 before opened hfound inside after hclosed =>
    intro h
    obtain ⟨hfirst, _⟩ := List.cons.inj (Prod.mk.inj h).1
    rw [← hfirst]
    exact Text.not_infix_of_cutAt (by decide) hclosed

theorem trimChars_of_scan {o : Occurrence} {rest : List Char} (h : scan cs = ([o], rest))
    (hbefore : o.before.all Text.isBlank) (hrest : rest.all Text.isBlank) :
    Text.trimChars cs = opening ++ o.inside ++ closing := by
  have hcs := assemble_scan cs
  rw [h] at hcs
  have htext : cs = o.before ++ (opening ++ o.inside ++ closing) ++ rest := by
    rw [← hcs]
    simp [assemble, Occurrence.text]
  rw [htext, Text.trimChars_append _ hbefore hrest, trimChars_template]

/-- An opening has two braces, and blanks have none. -/
theorem not_infix_of_blank {left : List Char} (h : left.all Text.isBlank) :
    ¬ opening <:+: left ++ ['{'] :=
  Text.not_infix_doubled (Text.not_mem_of_blank h (by decide))

theorem scan_of_trimChars (htrim : Text.trimChars cs = opening ++ inside ++ closing)
    (hclosing : ¬ closing <:+: inside ++ ['}']) :
    ∃ before rest, scan cs = ([⟨before, inside⟩], rest) ∧ before.all Text.isBlank ∧
      rest.all Text.isBlank := by
  obtain ⟨left, right, hcs, hleft, hright⟩ := Text.exists_blanks cs
  rw [htrim] at hcs
  -- The blanks in front have no brace, so the opening of the text is the first one in it.
  have hfound : Text.cutAt opening cs = some (left, inside ++ closing ++ right) := by
    rw [hcs, ← Text.cutAt_append (by decide) (not_infix_of_blank hleft)]
    simp
  have hclosed : Text.cutAt closing (inside ++ closing ++ right) = some (inside, right) :=
    Text.cutAt_append (by decide) hclosing right
  have hright' : Text.cutAt opening right = none :=
    Text.cutAt_eq_none_iff.mpr fun h =>
      not_infix_of_blank hright (h.trans (List.prefix_append right ['{']).isInfix)
  refine ⟨left, right, ?_, hleft, hright⟩
  rw [scan_of_found hfound hclosed, scan_of_not_found hright']

theorem isAlone_iff :
    IsAlone cs ↔ ∃ inside, Text.trimChars cs = opening ++ inside ++ closing ∧
      ¬ closing <:+: inside ++ ['}'] := by
  constructor
  · rintro ⟨o, rest, hscan, hbefore, hrest⟩
    exact ⟨o.inside, trimChars_of_scan hscan hbefore hrest, closing_first_of_scan hscan⟩
  · rintro ⟨inside, htrim, hclosing⟩
    obtain ⟨before, rest, hscan, hbefore, hrest⟩ := scan_of_trimChars htrim hclosing
    exact ⟨_, rest, hscan, hbefore, hrest⟩

end Ends

end SignalMap.Template
