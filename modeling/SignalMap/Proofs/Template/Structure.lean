import SignalMap.Proofs.Globals.Descent
import SignalMap.Proofs.Template.Splicing

/-!
Where rendering leaves what it makes. A document keeps its places: at each place of a
text stands what is made of that text, which is the value of its one template, or the
text with the values of its templates.
-/

namespace SignalMap.Template

open Globals

variable {scope : Fields}

/-! What is made of a text -/

/-- The text is one template of the path, up to blanks around it: between its two ends no
template begins and none ends. -/
def IsTemplateOf (path cs : List Char) : Prop :=
  ∃ inside, Text.trimChars cs = opening ++ inside ++ closing ∧ ¬ opening <:+: inside ∧
    ¬ closing <:+: inside ∧ Text.trimChars inside = path

/-- The value is that of the one template of the text, or it is the text with the values
of the templates in their places. -/
def Makes (scope : Fields) (text : String) (value : Json) : Prop :=
  (∀ path, IsTemplateOf path text.toList → lookup scope path = .ok value) ∧
  ((∀ path, ¬ IsTemplateOf path text.toList) →
    ∃ values, List.Forall₂ (Stands scope) (scan text.toList).1 values ∧
      value = .string (String.ofList (fill text.toList values)))

theorem makes_iff {text : String} {value : Json} :
    Makes scope text value ↔
      (∀ path, whole? text.toList = some path → lookup scope path = .ok value) ∧
      (whole? text.toList = none →
        ∃ values, List.Forall₂ (Stands scope) (scan text.toList).1 values ∧
          value = .string (String.ofList (fill text.toList values))) := by
  simp only [Makes, IsTemplateOf, ← whole?_eq_some_iff, Option.eq_none_iff_forall_ne_some, ne_eq]

theorem exists_forall₂_stands {os : List Occurrence} (h : ∀ o ∈ os, ∃ value, Stands scope o value) :
    ∃ values, List.Forall₂ (Stands scope) os values := by
  induction os with
  | nil => exact ⟨[], .nil⟩
  | cons o rest ih =>
    obtain ⟨hfirst, hrest⟩ := List.forall_mem_cons.mp h
    obtain ⟨value, hvalue⟩ := hfirst
    obtain ⟨values, hvalues⟩ := ih hrest
    exact ⟨value :: values, .cons hvalue hvalues⟩

/-- Where a text is filled in, every template of it has a value to write. -/
theorem exists_values_of_splice {input : String} {cs spliced : List Char}
    (h : splice scope input cs = .ok spliced) :
    ∃ values, List.Forall₂ (Stands scope) (scan cs).1 values ∧ spliced = fill cs values := by
  have hstands : ∀ o ∈ (scan cs).1, ∃ value, Stands scope o value := by
    intro o ho
    obtain hstands | ⟨fault, hlacks⟩ := stands_or_lacks scope input o
    · exact hstands
    · obtain ⟨first, hfirst⟩ := exists_firstFault_iff.mpr ⟨o, ho, fault, hlacks⟩
      rw [splice_eq_error_iff.mpr hfirst] at h
      cases h
  obtain ⟨values, hvalues⟩ := exists_forall₂_stands hstands
  rw [splice_eq_fill hvalues] at h
  cases h
  exact ⟨values, hvalues, rfl⟩

theorem renderString_eq_ok_iff {text : String} {value : Json} :
    renderString scope text = .ok value ↔ Makes scope text value := by
  rw [makes_iff]
  cases hwhole : whole? text.toList with
  | some path =>
    rw [renderString_of_whole hwhole]
    constructor
    · intro h
      refine ⟨?_, nofun⟩
      intro other hother
      cases hother
      exact h
    · intro h
      exact h.1 path rfl
  | none =>
    constructor
    · intro h
      unfold renderString at h
      rw [hwhole] at h
      obtain ⟨spliced, hspliced, rfl⟩ := map_eq_ok.mp h
      obtain ⟨values, hvalues, rfl⟩ := exists_values_of_splice hspliced
      exact ⟨nofun, fun _ => ⟨values, hvalues, rfl⟩⟩
    · intro h
      obtain ⟨values, hvalues, rfl⟩ := h.2 rfl
      exact renderString_of_not_whole (by simp [hwhole]) hvalues

/-! Places in a document -/

theorem get?_renderFields {fields rendered : Fields} {name : String} {value : Json}
    (h : renderFields scope fields = .ok rendered) (hvalue : Fields.get? fields name = some value) :
    ∃ made, Fields.get? rendered name = some made ∧ render scope value = .ok made := by
  induction fields generalizing rendered with
  | nil => cases hvalue
  | cons field rest ih =>
    obtain ⟨own, first⟩ := field
    rw [renderFields] at h
    obtain ⟨made, hmade, h⟩ := bind_eq_ok.mp h
    obtain ⟨others, hothers, h⟩ := bind_eq_ok.mp h
    cases h
    rw [Fields.get?] at hvalue ⊢
    by_cases hname : name = own
    · rw [if_pos hname] at hvalue ⊢
      cases hvalue
      exact ⟨made, rfl, hmade⟩
    · rw [if_neg hname] at hvalue ⊢
      exact ih hothers hvalue

theorem getElem?_renderItems {items rendered : List Json} {position : Nat} {item : Json}
    (h : renderItems scope items = .ok rendered) (hitem : items[position]? = some item) :
    ∃ made, rendered[position]? = some made ∧ render scope item = .ok made := by
  induction items generalizing rendered position with
  | nil => cases hitem
  | cons first rest ih =>
    rw [renderItems] at h
    obtain ⟨made, hmade, h⟩ := bind_eq_ok.mp h
    obtain ⟨others, hothers, h⟩ := bind_eq_ok.mp h
    cases h
    cases position with
    | zero =>
      cases hitem
      exact ⟨made, rfl, hmade⟩
    | succ position =>
      have hbehind : rest[position]? = some item := hitem
      have hfound := ih hothers hbehind
      exact hfound

theorem leads_of_render {document rendered inner : Json} {step : Step}
    (h : render scope document = .ok rendered) (hstep : Leads document step inner) :
    ∃ made, Leads rendered step made ∧ render scope inner = .ok made := by
  cases hstep with
  | field hvalue =>
    rw [render] at h
    obtain ⟨fields, hfields, rfl⟩ := map_eq_ok.mp h
    obtain ⟨made, hmade, hrender⟩ := get?_renderFields hfields hvalue
    exact ⟨made, .field hmade, hrender⟩
  | item hitem =>
    rw [render] at h
    obtain ⟨items, hitems, rfl⟩ := map_eq_ok.mp h
    obtain ⟨made, hmade, hrender⟩ := getElem?_renderItems hitems hitem
    exact ⟨made, .item hmade, hrender⟩

/-- What stands at a place of a document is rendered to what stands at this place of the
rendered one. -/
theorem reaches_of_render {document rendered inner : Json} {steps : List Step}
    (h : render scope document = .ok rendered) (hsteps : Reaches document steps inner) :
    ∃ made, Reaches rendered steps made ∧ render scope inner = .ok made := by
  induction hsteps generalizing rendered with
  | here => exact ⟨rendered, .here rendered, h⟩
  | step hstep _ ih =>
    obtain ⟨next, hnext, hrender⟩ := leads_of_render h hstep
    obtain ⟨made, hmade, hinner⟩ := ih hrender
    exact ⟨made, .step hnext hmade, hinner⟩

/-- At the place of every text stands what is made of it. -/
theorem makes_of_renderFields {fields rendered : Fields} {steps : List Step} {text : String}
    (h : renderFields scope fields = .ok rendered)
    (htext : Reaches (.object fields) steps (.string text)) :
    ∃ value, Reaches (.object rendered) steps value ∧ Makes scope text value := by
  have hdocument : render scope (.object fields) = .ok (.object rendered) := by
    rw [render]
    exact map_eq_ok.mpr ⟨rendered, h, rfl⟩
  obtain ⟨value, hvalue, hrender⟩ := reaches_of_render hdocument htext
  rw [render] at hrender
  exact ⟨value, hvalue, renderString_eq_ok_iff.mp hrender⟩

end SignalMap.Template
