import SignalMap.Proofs.Template.Scanning

/-!
What rendering makes of a text whose templates all have values. A text that is
taken for one template is the value itself; any other text has the values in the
places of its templates. Which of the two a text is taken for is seen at its two
ends, and there are texts whose ends mislead.
-/

namespace SignalMap.Template

/-! Two readings of one text -/

/-- The ends of the text mislead about its templates. It is a template on the
whole, and either another brace stands in front of the closing, which then ends
one character earlier, or another opening stands inside; but not both. -/
def Misread (cs : List Char) : Prop :=
  ∃ inside, Text.trimChars cs = opening ++ inside ++ closing ∧ ¬ closing <:+: inside ∧
    (opening <:+: inside ↔ inside.getLast? ≠ some '}')

section Ends

variable {cs inside : List Char}

theorem eq_of_template {other : List Char}
    (h : opening ++ inside ++ closing = opening ++ other ++ closing) : inside = other := by
  simpa using h

/-- What is asked of the text between the two ends is asked of one text only. -/
theorem exists_template_iff {p : List Char → Prop}
    (htrim : Text.trimChars cs = opening ++ inside ++ closing) :
    (∃ other, Text.trimChars cs = opening ++ other ++ closing ∧ p other) ↔ p inside := by
  constructor
  · rintro ⟨other, hother, h⟩
    rw [eq_of_template (htrim.symm.trans hother)]
    exact h
  · intro h
    exact ⟨inside, htrim, h⟩

theorem isSome_whole?_iff :
    (whole? cs).isSome = true ↔ ∃ inside, Text.trimChars cs = opening ++ inside ++ closing ∧
      ¬ opening <:+: inside ∧ ¬ closing <:+: inside := by
  simp only [Option.isSome_iff_exists, whole?_eq_some_iff]
  constructor
  · rintro ⟨_, inside, htrim, hopening, hclosing, _⟩
    exact ⟨inside, htrim, hopening, hclosing⟩
  · rintro ⟨inside, htrim, hopening, hclosing⟩
    exact ⟨_, inside, htrim, hopening, hclosing, rfl⟩

/-- The two readings agree but for the texts whose ends mislead. -/
theorem whole?_iff_isAlone_iff (cs : List Char) :
    ((whole? cs).isSome = true ↔ IsAlone cs) ↔ ¬ Misread cs := by
  rw [isSome_whole?_iff, isAlone_iff, Misread]
  by_cases hframed : ∃ inside, Text.trimChars cs = opening ++ inside ++ closing
  · obtain ⟨inside, htrim⟩ := hframed
    -- Both readings ask that no closing stands inside. What they ask beyond that differs.
    simp only [exists_template_iff htrim, closing_infix_snoc_iff, not_or]
    tauto
  · have hnone : ∀ p : List Char → Prop,
        ¬ ∃ inside, Text.trimChars cs = opening ++ inside ++ closing ∧ p inside := by
      rintro p ⟨inside, htrim, _⟩
      exact hframed ⟨inside, htrim⟩
    exact iff_of_true (iff_of_false (hnone _) (hnone _)) (hnone _)

end Ends

/-! Values in the places of templates -/

def valueText : Json → List Char
  | .string s => s.toList
  | value => value.text.toList

def Stands (scope : Fields) (o : Occurrence) (value : Json) : Prop :=
  lookup scope o.name = .ok value ∧ value ≠ .null

def fill (cs : List Char) (values : List Json) : List Char :=
  assemble (values.map valueText) (scan cs)

theorem spliceText_of_ne_null {name : List Char} {input : String} {value : Json}
    (h : value ≠ .null) : spliceText name input value = .ok (valueText value) := by
  cases value with
  | null => exact absurd rfl h
  | bool flag => rfl
  | number n => rfl
  | string s => rfl
  | array items => rfl
  | object fields => rfl

section Splice

variable {scope : Fields} {input : String} {rest before opened inside after : List Char}

theorem splice_of_not_found (h : Text.cutAt opening rest = none) :
    splice scope input rest = .ok rest := by
  fun_cases splice scope input rest with
  | case1 => rfl
  | case2 _ _ hfound => cases h.symm.trans hfound
  | case3 _ _ hfound => cases h.symm.trans hfound

theorem splice_of_not_closed (hfound : Text.cutAt opening rest = some (before, opened))
    (hclosed : Text.cutAt closing opened = none) : splice scope input rest = .ok rest := by
  fun_cases splice scope input rest with
  | case1 => rfl
  | case2 => rfl
  | case3 _ _ h _ _ hinside =>
    cases hfound.symm.trans h
    cases hclosed.symm.trans hinside

theorem splice_found (hfound : Text.cutAt opening rest = some (before, opened))
    (hclosed : Text.cutAt closing opened = some (inside, after)) :
    splice scope input rest = (do
      let value ← lookup scope (Text.trimChars inside)
      let text ← spliceText (Text.trimChars inside) input value
      let tail ← splice scope input after
      return before ++ text ++ tail) := by
  fun_cases splice scope input rest with
  | case1 hnone => cases hfound.symm.trans hnone
  | case2 _ _ hother hnone =>
    cases hfound.symm.trans hother
    cases hclosed.symm.trans hnone
  | case3 _ _ hother _ _ hinside =>
    cases hfound.symm.trans hother
    cases hclosed.symm.trans hinside
    rfl

theorem splice_of_found (hfound : Text.cutAt opening rest = some (before, opened))
    (hclosed : Text.cutAt closing opened = some (inside, after)) {value : Json}
    (h : Stands scope ⟨before, inside⟩ value) {tail : List Char}
    (htail : splice scope input after = .ok tail) :
    splice scope input rest = .ok (before ++ valueText value ++ tail) := by
  rw [splice_found hfound hclosed]
  refine bind_eq_ok.mpr ⟨value, h.1, bind_eq_ok.mpr ⟨_, spliceText_of_ne_null h.2, ?_⟩⟩
  exact bind_eq_ok.mpr ⟨tail, htail, rfl⟩

end Splice

theorem fill_of_found {rest before opened inside after : List Char} {value : Json}
    {others : List Json} (hfound : Text.cutAt opening rest = some (before, opened))
    (hclosed : Text.cutAt closing opened = some (inside, after)) :
    fill rest (value :: others) = before ++ valueText value ++ fill after others := by
  unfold fill
  rw [scan_of_found hfound hclosed]
  simp [assemble]

/-- The induction is over the templates of the text, as they are found. -/
theorem splice_eq_fill {scope : Fields} {input : String} {cs : List Char} {values : List Json}
    (h : List.Forall₂ (Stands scope) (scan cs).1 values) :
    splice scope input cs = .ok (fill cs values) := by
  fun_induction scan cs generalizing values with
  | case1 rest hfound =>
    cases h
    rw [splice_of_not_found hfound, fill, scan_of_not_found hfound]
    rfl
  | case2 rest before opened hfound hclosed =>
    cases h
    rw [splice_of_not_closed hfound hclosed, fill, scan_of_not_closed hfound hclosed]
    rfl
  | case3 rest before opened hfound inside after hclosed ih =>
    obtain ⟨value, others, hvalue, hothers, rfl⟩ := List.forall₂_cons_left_iff.mp h
    rw [splice_of_found hfound hclosed hvalue (ih hothers), fill_of_found hfound hclosed]

section Render

variable {scope : Fields} {input : String} {values : List Json}

theorem renderString_of_whole {name : List Char} (h : whole? input.toList = some name) :
    renderString scope input = lookup scope name := by
  unfold renderString
  rw [h]

theorem renderString_of_not_whole (hwhole : ¬ (whole? input.toList).isSome = true)
    (h : List.Forall₂ (Stands scope) (scan input.toList).1 values) :
    renderString scope input = .ok (.string (String.ofList (fill input.toList values))) := by
  unfold renderString
  rw [Option.not_isSome_iff_eq_none.mp hwhole, splice_eq_fill h]
  rfl

/-- A template alone that is taken for one is rendered as its value. -/
theorem renderString_of_alone (hwhole : (whole? input.toList).isSome = true)
    (halone : IsAlone input.toList)
    (h : List.Forall₂ (Stands scope) (scan input.toList).1 values) :
    ∃ value, values = [value] ∧ renderString scope input = .ok value := by
  obtain ⟨o, rest, hscan, hbefore, hrest⟩ := halone
  rw [hscan] at h
  obtain ⟨value, others, hvalue, hothers, rfl⟩ := List.forall₂_cons_left_iff.mp h
  cases hothers
  obtain ⟨name, hname⟩ := Option.isSome_iff_exists.mp hwhole
  obtain ⟨inside, htrim, _, _, rfl⟩ := whole?_eq_some_iff.mp hname
  have hinside := eq_of_template (htrim.symm.trans (trimChars_of_scan hscan hbefore hrest))
  refine ⟨value, rfl, ?_⟩
  rw [renderString_of_whole hname, hinside]
  exact hvalue.1

end Render

/-- Rendering a text whose templates all have values. The two readings of a text,
by its ends and by its templates, agree unless the ends mislead. Where they agree
a text that is one template is its value, and every other one is filled in. Where
they do not, a template alone is filled in as if it were not, and any other text
is taken for the name between its two ends. -/
theorem renderString_eq {scope : Fields} {input : String} {values : List Json}
    (h : List.Forall₂ (Stands scope) (scan input.toList).1 values) :
    (((whole? input.toList).isSome = true ↔ IsAlone input.toList) ↔ ¬ Misread input.toList) ∧
    (¬ Misread input.toList →
      (IsAlone input.toList → ∃ value, values = [value] ∧ renderString scope input = .ok value) ∧
      (¬ IsAlone input.toList →
        renderString scope input = .ok (.string (String.ofList (fill input.toList values))))) ∧
    (Misread input.toList →
      (IsAlone input.toList →
        renderString scope input = .ok (.string (String.ofList (fill input.toList values)))) ∧
      (¬ IsAlone input.toList →
        ∃ inside, Text.trimChars input.toList = opening ++ inside ++ closing ∧
          renderString scope input = lookup scope (Text.trimChars inside))) := by
  have hagree := whole?_iff_isAlone_iff input.toList
  refine ⟨hagree, ?_, ?_⟩
  · intro hmisread
    have hreading := hagree.mpr hmisread
    refine ⟨?_, ?_⟩
    · intro halone
      exact renderString_of_alone (hreading.mpr halone) halone h
    · intro halone
      exact renderString_of_not_whole (fun hwhole => halone (hreading.mp hwhole)) h
  · intro hmisread
    have hreading := mt hagree.mp (not_not.mpr hmisread)
    refine ⟨?_, ?_⟩
    · intro halone
      exact renderString_of_not_whole (fun hwhole => hreading (iff_of_true hwhole halone)) h
    · intro halone
      have hwhole : (whole? input.toList).isSome = true := by
        by_contra hnone
        exact hreading (iff_of_false hnone halone)
      obtain ⟨name, hname⟩ := Option.isSome_iff_exists.mp hwhole
      obtain ⟨inside, htrim, _, _, rfl⟩ := whole?_eq_some_iff.mp hname
      exact ⟨inside, htrim, renderString_of_whole hname⟩

def fiveScope : Fields := [("x", .number (.unsigned 5))]

def looseBrace : String := "\x7b\x7b x \x7d\x7d\x7d"

theorem scan_looseBrace : scan looseBrace.toList = ([⟨[], " x ".toList⟩], ['}']) := by
  have hfound : Text.cutAt opening looseBrace.toList = some ([], " x \x7d\x7d\x7d".toList) := by
    rfl
  have hclosed : Text.cutAt closing " x \x7d\x7d\x7d".toList = some (" x ".toList, ['}']) := by
    rfl
  have hrest : Text.cutAt opening ['}'] = none := by
    rfl
  rw [scan_of_found hfound hclosed, scan_of_not_found hrest]

theorem stands_looseBrace :
    List.Forall₂ (Stands fiveScope) (scan looseBrace.toList).1 [.number (.unsigned 5)] := by
  rw [scan_looseBrace]
  exact .cons ⟨rfl, nofun⟩ .nil

theorem not_isAlone_looseBrace : ¬ IsAlone looseBrace.toList := by
  rintro ⟨o, rest, hscan, _, hrest⟩
  rw [scan_looseBrace] at hscan
  cases hscan
  exact absurd hrest (by decide)

theorem renderString_eq_looseBrace :
    List.Forall₂ (Stands fiveScope) (scan looseBrace.toList).1 [.number (.unsigned 5)] ∧
      Misread looseBrace.toList ∧
      ∃ inside, Text.trimChars looseBrace.toList = opening ++ inside ++ closing ∧
        renderString fiveScope looseBrace = lookup fiveScope (Text.trimChars inside) := by
  have hmisread : Misread looseBrace.toList :=
    ⟨" x \x7d".toList, by rfl, by decide, by decide⟩
  refine ⟨stands_looseBrace, hmisread, ?_⟩
  exact ((renderString_eq stands_looseBrace).2.2 hmisread).2 not_isAlone_looseBrace

/-- There are texts that are neither their one template nor filled in. -/
theorem not_forall_renderString_eq :
    ¬ ∀ (scope : Fields) (input : String) (values : List Json),
      List.Forall₂ (Stands scope) (scan input.toList).1 values →
      (IsAlone input.toList → ∃ value, values = [value] ∧ renderString scope input = .ok value) ∧
      (¬ IsAlone input.toList →
        renderString scope input = .ok (.string (String.ofList (fill input.toList values)))) := by
  intro h
  have hfilled := (h fiveScope looseBrace _ stands_looseBrace).2 not_isAlone_looseBrace
  have herror : renderString fiveScope looseBrace = .error (.unknown "x \x7d") := by
    rfl
  rw [herror] at hfilled
  cases hfilled

end SignalMap.Template
