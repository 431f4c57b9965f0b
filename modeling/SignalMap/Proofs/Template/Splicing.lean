import SignalMap.Proofs.Template.Rendering

/-!
Texts that are woven from templates and literals without braces. Every template is
found where it was written, so rendering puts the texts of the values in their places
in one pass over the text, and nothing that is put there is read again. It fails with
the first template that has no value to write.
-/

namespace SignalMap.Template

def Plain (cs : List Char) : Prop :=
  '{' ∉ cs ∧ '}' ∉ cs

instance (cs : List Char) : Decidable (Plain cs) :=
  inferInstanceAs (Decidable ('{' ∉ cs ∧ '}' ∉ cs))

def weave (os : List Occurrence) (last : List Char) : List Char :=
  assemble (os.map Occurrence.text) (os, last)

def Occurrence.Lacks (scope : Fields) (input : String) (o : Occurrence) : TemplateFault → Prop
  | .empty => o.name = []
  | .unknown name =>
    o.name ≠ [] ∧ Globals.find? scope (String.ofList o.name) = none ∧ name = String.ofList o.name
  | .unset name text =>
    o.name ≠ [] ∧ Globals.find? scope (String.ofList o.name) = some .null ∧
      name = String.ofList o.name ∧ text = input

/-! The templates of a woven text -/

section Weave

variable {o : Occurrence} {os : List Occurrence} {last : List Char}

theorem assemble_cons (text : List Char) (texts : List (List Char)) :
    assemble (text :: texts) (o :: os, last) =
      o.before ++ text ++ assemble texts (os, last) := by
  simp [assemble]

theorem weave_cons (o : Occurrence) (os : List Occurrence) (last : List Char) :
    weave (o :: os) last = o.before ++ opening ++ (o.inside ++ closing ++ weave os last) := by
  unfold weave
  rw [List.map_cons, assemble_cons, Occurrence.text]
  simp only [List.append_assoc]

theorem cutAt_opening_weave (h : '{' ∉ o.before) :
    Text.cutAt opening (weave (o :: os) last) =
      some (o.before, o.inside ++ closing ++ weave os last) := by
  rw [weave_cons]
  exact Text.cutAt_doubled h _

theorem scan_weave (hplain : ∀ o ∈ os, Plain o.before ∧ Plain o.inside) (hlast : Plain last) :
    scan (weave os last) = (os, last) := by
  induction os with
  | nil =>
    have hnone : Text.cutAt opening last = none := by
      apply Text.cutAt_eq_none_iff.mpr
      intro hfound
      exact hlast.1 (hfound.subset (by decide))
    exact scan_of_not_found hnone
  | cons o os ih =>
    obtain ⟨ho, hos⟩ := List.forall_mem_cons.mp hplain
    have hclosed : Text.cutAt closing (o.inside ++ closing ++ weave os last) =
        some (o.inside, weave os last) :=
      Text.cutAt_doubled ho.2.2 _
    rw [scan_of_found (cutAt_opening_weave ho.1.1) hclosed, ih hos]

/-- Two templates are not taken for one, since an opening stands between their ends. -/
theorem opening_infix_of_weave {inside right : List Char} {first second : Occurrence}
    (hright : '{' ∉ right)
    (h : inside ++ closing ++ right = first.inside ++ closing ++ weave (second :: os) last) :
    opening <:+: inside := by
  have hopening : opening <:+: inside ++ (closing ++ right) := by
    refine ⟨first.inside ++ closing ++ second.before,
      second.inside ++ closing ++ weave os last, ?_⟩
    rw [← List.append_assoc inside, h, weave_cons]
    simp only [List.append_assoc]
  have hbehind : '{' ∉ closing ++ right := by
    intro hmem
    rcases List.mem_append.mp hmem with hclosing | hmem
    · exact absurd hclosing (by decide)
    · exact hright hmem
  have hfirst : ['{'] ++ ['{'] <:+: inside := Text.infix_of_infix_append hbehind hopening
  exact hfirst

/-- Between the ends of one template there is no brace but those of the template. -/
theorem eq_of_single {inside right : List Char} (hinside : '}' ∉ o.inside) (hlast : '}' ∉ last)
    (h : inside ++ closing ++ right = o.inside ++ closing ++ last) : right = last := by
  have hcount := congrArg (List.count '}') h
  have htwo : closing.count '}' = 2 := by decide
  rw [List.count_append, List.count_append, List.count_append, List.count_append, htwo,
    List.count_eq_zero.mpr hinside, List.count_eq_zero.mpr hlast] at hcount
  have hnot : '}' ∉ inside := List.count_eq_zero.mp (by omega)
  have hcut : Text.cutAt closing (inside ++ closing ++ right) = some (inside, right) :=
    Text.cutAt_doubled hnot right
  rw [h] at hcut
  have hcut' : Text.cutAt closing (o.inside ++ closing ++ last) = some (o.inside, last) :=
    Text.cutAt_doubled hinside last
  exact (Prod.mk.inj (Option.some.inj (hcut.symm.trans hcut'))).2

/-- A woven text is taken for one template only when it is one between blanks. -/
theorem whole?_weave (hne : os ≠ [])
    (hplain : ∀ o ∈ os, Plain o.before ∧ Plain o.inside) (hlast : Plain last)
    (halone : ¬ ∃ o, os = [o] ∧ o.before.all Text.isBlank ∧ last.all Text.isBlank) :
    whole? (weave os last) = none := by
  apply Option.eq_none_iff_forall_ne_some.mpr
  intro name hname
  obtain ⟨inside, htrim, hopening, _, _⟩ := whole?_eq_some_iff.mp hname
  obtain ⟨left, right, hcs, hleft, hright⟩ := Text.exists_blanks (weave os last)
  obtain ⟨o, others, rfl⟩ := List.exists_cons_of_ne_nil hne
  obtain ⟨ho, _⟩ := List.forall_mem_cons.mp hplain
  have hnone : '{' ∉ left := Text.not_mem_of_blank hleft (by decide)
  have hfound : Text.cutAt opening (weave (o :: others) last) =
      some (left, inside ++ closing ++ right) := by
    have hcut := Text.cutAt_doubled hnone (inside ++ closing ++ right)
    rw [hcs, htrim]
    simpa [opening] using hcut
  have hsame := hfound.symm.trans (cutAt_opening_weave ho.1.1)
  obtain ⟨hbefore, hbehind⟩ := Prod.mk.inj (Option.some.inj hsame)
  cases others with
  | nil =>
    have hend : right = last := eq_of_single ho.2.2 hlast.2 hbehind
    exact halone ⟨o, rfl, hbefore ▸ hleft, hend ▸ hright⟩
  | cons second others =>
    have hblank : '{' ∉ right := Text.not_mem_of_blank hright (by decide)
    exact hopening (opening_infix_of_weave hblank hbehind)

end Weave

/-! Templates with and without a value -/

section Values

variable {scope : Fields} {input : String} {o : Occurrence} {value : Json}

theorem lookup_eq_ok_iff {name : List Char} :
    lookup scope name = .ok value ↔
      name ≠ [] ∧ Globals.find? scope (String.ofList name) = some value := by
  unfold lookup
  cases name with
  | nil => simp
  | cons c rest =>
    cases Globals.find? scope (String.ofList (c :: rest)) <;> simp

theorem lookup_eq_error_iff {name : List Char} {fault : TemplateFault} :
    lookup scope name = .error fault ↔
      (name = [] ∧ fault = .empty) ∨
        (name ≠ [] ∧ Globals.find? scope (String.ofList name) = none ∧
          fault = .unknown (String.ofList name)) := by
  unfold lookup
  cases name with
  | nil => simp [eq_comm]
  | cons c rest =>
    cases Globals.find? scope (String.ofList (c :: rest)) <;> simp [eq_comm]

theorem spliceText_eq_error_iff {name : List Char} {fault : TemplateFault} :
    spliceText name input value = .error fault ↔
      value = .null ∧ fault = .unset (String.ofList name) input := by
  by_cases hnull : value = .null
  · rw [hnull]
    simp [spliceText, eq_comm]
  · rw [spliceText_of_ne_null hnull]
    simp [hnull]

/-- A template without a text lacks it for one of the three reasons. -/
theorem lacks_iff {fault : TemplateFault} :
    o.Lacks scope input fault ↔
      lookup scope o.name = .error fault ∨
        ∃ value, lookup scope o.name = .ok value ∧ spliceText o.name input value = .error fault := by
  simp only [lookup_eq_error_iff, lookup_eq_ok_iff, spliceText_eq_error_iff]
  cases fault with
  | empty => simp [Occurrence.Lacks]
  | unknown name => simp [Occurrence.Lacks]
  | unset name text => simp [Occurrence.Lacks, and_assoc]

/-- A template has a value to write, or there is a reason why not. -/
theorem stands_or_lacks (scope : Fields) (input : String) (o : Occurrence) :
    (∃ value, Stands scope o value) ∨ ∃ fault, o.Lacks scope input fault := by
  simp only [lacks_iff]
  cases hlookup : lookup scope o.name with
  | error fault => exact Or.inr ⟨fault, Or.inl rfl⟩
  | ok value =>
    by_cases hnull : value = .null
    · exact Or.inr ⟨_, Or.inr ⟨value, rfl, spliceText_eq_error_iff.mpr ⟨hnull, rfl⟩⟩⟩
    · exact Or.inl ⟨value, hlookup, hnull⟩

end Values

/-! The first template that lacks a value -/

def FirstFault (scope : Fields) (input : String) (os : List Occurrence) (fault : TemplateFault) :
    Prop :=
  ∃ before o after, os = before ++ o :: after ∧ (∀ p ∈ before, ∃ value, Stands scope p value) ∧
    o.Lacks scope input fault

section FirstFault

variable {scope : Fields} {input : String} {o : Occurrence} {os : List Occurrence}
  {fault : TemplateFault}

theorem firstFault_cons_iff :
    FirstFault scope input (o :: os) fault ↔
      o.Lacks scope input fault ∨
        (∃ value, Stands scope o value) ∧ FirstFault scope input os fault := by
  constructor
  · rintro ⟨before, p, after, hos, hbefore, hlacks⟩
    cases before with
    | nil =>
      obtain ⟨rfl, _⟩ := List.cons.inj hos
      exact Or.inl hlacks
    | cons q before =>
      obtain ⟨rfl, hrest⟩ := List.cons.inj hos
      obtain ⟨hq, hothers⟩ := List.forall_mem_cons.mp hbefore
      exact Or.inr ⟨hq, before, p, after, hrest, hothers, hlacks⟩
  · rintro (hlacks | ⟨ho, before, p, after, hos, hbefore, hlacks⟩)
    · exact ⟨[], o, os, rfl, nofun, hlacks⟩
    · refine ⟨o :: before, p, after, ?_, List.forall_mem_cons.mpr ⟨ho, hbefore⟩, hlacks⟩
      rw [hos]
      rfl

theorem not_firstFault_nil : ¬ FirstFault scope input [] fault := by
  rintro ⟨before, o, after, hos, _⟩
  simp at hos

/-- Where some template lacks a value there is a first one. -/
theorem exists_firstFault_iff :
    (∃ fault, FirstFault scope input os fault) ↔ ∃ o ∈ os, ∃ fault, o.Lacks scope input fault := by
  constructor
  · rintro ⟨fault, before, o, after, rfl, _, hlacks⟩
    exact ⟨o, List.mem_append_right before List.mem_cons_self, fault, hlacks⟩
  · intro h
    induction os with
    | nil => simp at h
    | cons o os ih =>
      simp only [firstFault_cons_iff]
      rcases stands_or_lacks scope input o with hstands | ⟨fault, hlacks⟩
      · obtain ⟨p, hp, fault, hlacks⟩ := h
        rcases List.mem_cons.mp hp with rfl | hp
        · exact ⟨fault, Or.inl hlacks⟩
        · obtain ⟨first, hfirst⟩ := ih ⟨p, hp, fault, hlacks⟩
          exact ⟨first, Or.inr ⟨hstands, hfirst⟩⟩
      · exact ⟨fault, Or.inl hlacks⟩

end FirstFault

/-- The templates are replaced from left to right, and the first that cannot be ends it. -/
theorem splice_eq_error_iff {scope : Fields} {input : String} {cs : List Char}
    {fault : TemplateFault} :
    splice scope input cs = .error fault ↔ FirstFault scope input (scan cs).1 fault := by
  fun_induction scan cs with
  | case1 rest hfound =>
    rw [splice_of_not_found hfound]
    apply iff_of_false _ not_firstFault_nil
    intro h
    cases h
  | case2 rest before opened hfound hclosed =>
    rw [splice_of_not_closed hfound hclosed]
    apply iff_of_false _ not_firstFault_nil
    intro h
    cases h
  | case3 rest before opened hfound inside after hclosed ih =>
    rw [splice_found hfound hclosed, firstFault_cons_iff, ← ih, lacks_iff]
    simp only [bind_eq_error]
    constructor
    · rintro (h | ⟨value, hvalue, h | ⟨text, htext, h | ⟨_, _, h⟩⟩⟩)
      · exact Or.inl (Or.inl h)
      · exact Or.inl (Or.inr ⟨value, hvalue, h⟩)
      · have hnull : value ≠ .null := by
          rintro rfl
          cases htext
        exact Or.inr ⟨⟨value, hvalue, hnull⟩, h⟩
      · cases h
    · rintro ((h | ⟨value, hvalue, h⟩) | ⟨⟨value, hvalue, hnull⟩, h⟩)
      · exact Or.inl h
      · exact Or.inr ⟨value, hvalue, Or.inl h⟩
      · exact Or.inr ⟨value, hvalue, Or.inr ⟨_, spliceText_of_ne_null hnull, Or.inl h⟩⟩

theorem renderString_eq_error_iff {scope : Fields} {input : String} {fault : TemplateFault}
    (hwhole : whole? input.toList = none) :
    renderString scope input = .error fault ↔
      FirstFault scope input (scan input.toList).1 fault := by
  unfold renderString
  rw [hwhole]
  exact map_eq_error.trans splice_eq_error_iff

/-- A woven text that is not a template between blanks is rendered in one pass. Where
every template has a value to write, these values stand between the literals, whatever
they hold. Rendering fails exactly where one of them has none, and its error is about
the first of these. -/
theorem renderString_weave {scope : Fields} {input : String} {os : List Occurrence}
    {last : List Char} (hinput : input.toList = weave os last) (hne : os ≠ [])
    (hplain : ∀ o ∈ os, Plain o.before ∧ Plain o.inside) (hlast : Plain last)
    (halone : ¬ ∃ o, os = [o] ∧ o.before.all Text.isBlank ∧ last.all Text.isBlank) :
    (∀ values, List.Forall₂ (Stands scope) os values →
      renderString scope input =
        .ok (.string (String.ofList (assemble (values.map valueText) (os, last))))) ∧
    (∀ fault, renderString scope input = .error fault ↔ FirstFault scope input os fault) ∧
    ((∃ fault, renderString scope input = .error fault) ↔
      ∃ o ∈ os, ∃ fault, o.Lacks scope input fault) := by
  have hscan : scan input.toList = (os, last) := by
    rw [hinput]
    exact scan_weave hplain hlast
  have hwhole : whole? input.toList = none := by
    rw [hinput]
    exact whole?_weave hne hplain hlast halone
  have herror (fault : TemplateFault) :
      renderString scope input = .error fault ↔ FirstFault scope input os fault := by
    rw [renderString_eq_error_iff hwhole, hscan]
  refine ⟨?_, herror, ?_⟩
  · intro values hvalues
    have hfound : List.Forall₂ (Stands scope) (scan input.toList).1 values := by
      rw [hscan]
      exact hvalues
    rw [renderString_of_not_whole (by simp [hwhole]) hfound, fill, hscan]
  · rw [← exists_firstFault_iff]
    exact exists_congr herror

def echoScope : Fields :=
  [("a", .string "\x7b\x7b b \x7d\x7d"), ("b", .number (.unsigned 5)), ("c", .null)]

def echoText (second : Char) : List Occurrence :=
  [⟨['<'], " a ".toList⟩, ⟨['|'], [second]⟩]

theorem plain_echoText (second : Char) (h : Plain [second]) :
    ∀ o ∈ echoText second, Plain o.before ∧ Plain o.inside := by
  unfold echoText
  simp only [List.forall_mem_cons]
  exact ⟨⟨by decide, by decide⟩, ⟨by decide, h⟩, nofun⟩

theorem renderString_weave_echo :
    renderString echoScope "<\x7b\x7b a \x7d\x7d|\x7b\x7bb\x7d\x7d" =
        .ok (.string "<\x7b\x7b b \x7d\x7d|5") ∧
      renderString echoScope "<\x7b\x7b a \x7d\x7d|\x7b\x7bc\x7d\x7d" =
        .error (.unset "c" "<\x7b\x7b a \x7d\x7d|\x7b\x7bc\x7d\x7d") := by
  have halone (second : Char) : ¬ ∃ o, echoText second = [o] ∧ o.before.all Text.isBlank ∧
      ([] : List Char).all Text.isBlank := by
    rintro ⟨o, htwo, _⟩
    simp [echoText] at htwo
  have hfirst : Stands echoScope ⟨['<'], " a ".toList⟩ (.string "\x7b\x7b b \x7d\x7d") :=
    ⟨rfl, nofun⟩
  constructor
  · have hvalues : List.Forall₂ (Stands echoScope) (echoText 'b')
        [.string "\x7b\x7b b \x7d\x7d", .number (.unsigned 5)] :=
      .cons hfirst (.cons ⟨rfl, nofun⟩ .nil)
    exact (renderString_weave (by rfl) (List.cons_ne_nil _ _) (plain_echoText 'b' (by decide))
      (by decide) (halone 'b')).1 _ hvalues
  · have hfault : FirstFault echoScope "<\x7b\x7b a \x7d\x7d|\x7b\x7bc\x7d\x7d" (echoText 'c')
        (.unset "c" "<\x7b\x7b a \x7d\x7d|\x7b\x7bc\x7d\x7d") :=
      ⟨[_], ⟨['|'], ['c']⟩, [], rfl, List.forall_mem_singleton.mpr ⟨_, hfirst⟩,
        by decide, rfl, rfl, rfl⟩
    exact ((renderString_weave (by rfl) (List.cons_ne_nil _ _) (plain_echoText 'c' (by decide))
      (by decide) (halone 'c')).2.1 _).mpr hfault

end SignalMap.Template
