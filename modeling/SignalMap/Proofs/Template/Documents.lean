import SignalMap.Proofs.Globals.Order
import SignalMap.Proofs.Template.Structure

/-!
Rendering a document as a whole. Every place of the document stays, and what stands at
it changes only where it is a text with an opening, which becomes what it would become
alone.
-/

namespace SignalMap.Template

open Globals

variable {scope : Fields} {document rendered inner : Json} {step : Step}

/-! Texts without an opening -/

theorem whole?_of_no_opening {cs : List Char} (h : ¬ opening <:+: cs) : whole? cs = none := by
  apply Option.eq_none_iff_forall_ne_some.mpr
  intro name hname
  obtain ⟨inside, htrim, _⟩ := whole?_eq_some_iff.mp hname
  obtain ⟨left, right, hcs, _, _⟩ := Text.exists_blanks cs
  apply h
  rw [hcs, htrim]
  exact ⟨left, inside ++ closing ++ right, by simp only [List.append_assoc]⟩

theorem renderString_of_no_opening {text : String} (h : ¬ opening <:+: text.toList) :
    renderString scope text = .ok (.string text) := by
  unfold renderString
  rw [whole?_of_no_opening h]
  dsimp only
  rw [splice_of_not_found (Text.cutAt_eq_none_iff.mpr h)]
  simp [Except.map]

/-! One step down -/

inductive Mirrors (scope : Fields) : Json → Json → Prop
  | null : Mirrors scope .null .null
  | bool (flag : Bool) : Mirrors scope (.bool flag) (.bool flag)
  | number (n : JsonNumber) : Mirrors scope (.number n) (.number n)
  | literal {text : String} (h : ¬ opening <:+: text.toList) :
      Mirrors scope (.string text) (.string text)
  | template {text : String} {value : Json} (h : opening <:+: text.toList)
      (hvalue : render scope (.string text) = .ok value) : Mirrors scope (.string text) value
  | array {items made : List Json} (h : made.length = items.length) :
      Mirrors scope (.array items) (.array made)
  | object {fields made : Fields} (h : made.names = fields.names) :
      Mirrors scope (.object fields) (.object made)

theorem length_renderItems {items made : List Json} (h : renderItems scope items = .ok made) :
    made.length = items.length := by
  induction items generalizing made with
  | nil =>
    cases h
    rfl
  | cons first rest ih =>
    rw [renderItems] at h
    obtain ⟨value, _, h⟩ := bind_eq_ok.mp h
    obtain ⟨others, hothers, h⟩ := bind_eq_ok.mp h
    cases h
    rw [List.length_cons, List.length_cons, ih hothers]

theorem names_renderFields {fields made : Fields} (h : renderFields scope fields = .ok made) :
    made.names = fields.names := by
  induction fields generalizing made with
  | nil =>
    cases h
    rfl
  | cons field rest ih =>
    obtain ⟨own, first⟩ := field
    rw [renderFields] at h
    obtain ⟨value, _, h⟩ := bind_eq_ok.mp h
    obtain ⟨others, hothers, h⟩ := bind_eq_ok.mp h
    cases h
    exact congrArg (own :: ·) (ih hothers)

theorem mirrors_of_render (h : render scope document = .ok rendered) :
    Mirrors scope document rendered := by
  cases document with
  | null =>
    cases h
    exact .null
  | bool flag =>
    cases h
    exact .bool flag
  | number n =>
    cases h
    exact .number n
  | string text =>
    by_cases hopening : opening <:+: text.toList
    · exact .template hopening h
    · rw [render, renderString_of_no_opening hopening] at h
      cases h
      exact .literal hopening
  | array items =>
    rw [render] at h
    obtain ⟨made, hmade, rfl⟩ := map_eq_ok.mp h
    exact .array (length_renderItems hmade)
  | object fields =>
    rw [render] at h
    obtain ⟨made, hmade, rfl⟩ := map_eq_ok.mp h
    exact .object (names_renderFields hmade)

theorem renderItems_of_getElem? {items made : List Json} (hlength : made.length = items.length)
    (h : ∀ (position : Nat) item, items[position]? = some item →
      ∃ value, made[position]? = some value ∧ render scope item = .ok value) :
    renderItems scope items = .ok made := by
  induction items generalizing made with
  | nil =>
    rw [List.eq_nil_of_length_eq_zero hlength]
    rfl
  | cons first rest ih =>
    obtain ⟨value, others, rfl⟩ := List.exists_cons_of_length_eq_add_one hlength
    obtain ⟨own, hown, hfirst⟩ := h 0 first rfl
    cases hown
    have hrest : renderItems scope rest = .ok others := by
      apply ih (Nat.succ.inj hlength)
      intro position item hitem
      exact h (position + 1) item hitem
    rw [renderItems, hfirst, hrest]
    rfl

theorem renderFields_of_get? {fields made : Fields} (hnodup : fields.names.Nodup)
    (hnames : made.names = fields.names)
    (h : ∀ name inner, Fields.get? fields name = some inner →
      ∃ value, Fields.get? made name = some value ∧ render scope inner = .ok value) :
    renderFields scope fields = .ok made := by
  induction fields generalizing made with
  | nil =>
    rw [List.map_eq_nil_iff.mp hnames]
    rfl
  | cons field rest ih =>
    obtain ⟨name, first⟩ := field
    obtain ⟨hname, hrest⟩ := List.nodup_cons.mp hnodup
    obtain ⟨⟨own, value⟩, others, rfl, hown, hothers⟩ := List.map_eq_cons_iff.mp hnames
    have hsame : own = name := hown
    subst hsame
    obtain ⟨found, hfound, hfirst⟩ := h own first (if_pos rfl)
    have hvalue : value = found := Option.some.inj ((if_pos rfl).symm.trans hfound)
    have hbehind : renderFields scope rest = .ok others := by
      apply ih hrest hothers
      intro other inner hinner
      have hne : other ≠ own := by
        intro heq
        exact hname (Fields.mem_names_iff.mpr ⟨inner, heq ▸ hinner⟩)
      obtain ⟨made, hmade, hrender⟩ := h other inner ((if_neg hne).trans hinner)
      exact ⟨made, (if_neg hne).symm.trans hmade, hrender⟩
    rw [renderFields, hfirst, hbehind, hvalue]
    rfl

/-- A document is rendered by rendering what its steps lead to. -/
theorem render_eq_ok_iff_of_leads (hordered : IsOrdered document) :
    render scope document = .ok rendered ↔
      Mirrors scope document rendered ∧ ∀ step inner, Leads document step inner →
        ∃ made, Leads rendered step made ∧ render scope inner = .ok made := by
  constructor
  · intro h
    exact ⟨mirrors_of_render h, fun step inner hstep => leads_of_render h hstep⟩
  · intro h
    obtain ⟨hmirrors, hbelow⟩ := h
    cases hmirrors with
    | null => rfl
    | bool flag => rfl
    | number n => rfl
    | literal hopening =>
      rw [render]
      exact renderString_of_no_opening hopening
    | template _ hvalue => exact hvalue
    | array hlength =>
      rw [render, renderItems_of_getElem? hlength]
      · rfl
      · intro position item hitem
        obtain ⟨value, hvalue, hrender⟩ := hbelow _ item (.item hitem)
        cases hvalue with
        | item hvalue => exact ⟨value, hvalue, hrender⟩
    | object hnames =>
      rw [render, renderFields_of_get? hordered.isSorted.nodup hnames]
      · rfl
      · intro name inner hinner
        obtain ⟨value, hvalue, hrender⟩ := hbelow _ inner (.field hinner)
        cases hvalue with
        | field hvalue => exact ⟨value, hvalue, hrender⟩

/-! All places -/

def Renders (scope : Fields) (document rendered : Json) : Prop :=
  ∀ steps inner, Reaches document steps inner →
    ∃ made, Reaches rendered steps made ∧ Mirrors scope inner made

theorem renders_iff_of_leads :
    Renders scope document rendered ↔
      Mirrors scope document rendered ∧ ∀ step inner, Leads document step inner →
        ∃ made, Leads rendered step made ∧ Renders scope inner made := by
  constructor
  · intro h
    constructor
    · obtain ⟨made, hmade, hmirrors⟩ := h [] document (.here document)
      cases hmade
      exact hmirrors
    · intro step inner hstep
      obtain ⟨_, hreaches, _⟩ := h [step] inner (.step hstep (.here inner))
      obtain ⟨made, hmade, _⟩ := reaches_cons_iff.mp hreaches
      refine ⟨made, hmade, ?_⟩
      intro steps last hlast
      obtain ⟨value, hvalue, hmirrors⟩ := h (step :: steps) last (.step hstep hlast)
      obtain ⟨next, hnext, hrest⟩ := reaches_cons_iff.mp hvalue
      rw [leads_unique hnext hmade] at hrest
      exact ⟨value, hrest, hmirrors⟩
  · intro h
    obtain ⟨hmirrors, hbelow⟩ := h
    intro steps inner hreaches
    cases hreaches with
    | here => exact ⟨rendered, .here rendered, hmirrors⟩
    | step hstep hrest =>
      obtain ⟨next, hnext, hrenders⟩ := hbelow _ _ hstep
      obtain ⟨made, hmade, hlast⟩ := hrenders _ _ hrest
      exact ⟨made, .step hnext hmade, hlast⟩

theorem render_eq_ok_iff (hordered : IsOrdered document) :
    render scope document = .ok rendered ↔ Renders scope document rendered := by
  induction document using leads_induction generalizing rendered with
  | h document ih =>
    rw [render_eq_ok_iff_of_leads hordered, renders_iff_of_leads]
    apply and_congr_right
    intro _
    constructor
    · intro h step inner hstep
      obtain ⟨made, hmade, hrender⟩ := h step inner hstep
      exact ⟨made, hmade, (ih step inner hstep (hordered.leads hstep)).mp hrender⟩
    · intro h step inner hstep
      obtain ⟨made, hmade, hrenders⟩ := h step inner hstep
      exact ⟨made, hmade, (ih step inner hstep (hordered.leads hstep)).mpr hrenders⟩

end SignalMap.Template
