import SignalMap.Globals
import SignalMap.Proofs.Json.Fields
import SignalMap.Text.Numeral

/-!
Going down a document, step by step. A step leads from an object to the value of one of
its names, or from an array to one of its items. Every sequence of steps either reaches
a value, which is then the only one, or stops at a step that the value before it blocks.
-/

namespace SignalMap.Globals

inductive Leads : Json → Step → Json → Prop
  | field {fields : Fields} {name : String} {inner : Json}
      (h : Fields.get? fields name = some inner) : Leads (.object fields) (.field name) inner
  | item {items : List Json} {position : Nat} {inner : Json}
      (h : items[position]? = some inner) : Leads (.array items) (.item position) inner

inductive Reaches : Json → List Step → Json → Prop
  | here (value : Json) : Reaches value [] value
  | step {value inner last : Json} {step : Step} {rest : List Step}
      (h : Leads value step inner) (hrest : Reaches inner rest last) :
      Reaches value (step :: rest) last

inductive Blocked : Json → Step → Prop
  | missing {fields : Fields} {name : String} (h : name ∉ fields.names) :
      Blocked (.object fields) (.field name)
  | beyond {items : List Json} {position : Nat} (h : items.length ≤ position) :
      Blocked (.array items) (.item position)
  | notObject {value : Json} {name : String} (h : ∀ fields, value ≠ .object fields) :
      Blocked value (.field name)
  | notArray {value : Json} {position : Nat} (h : ∀ items, value ≠ .array items) :
      Blocked value (.item position)

def Stops (value : Json) (steps : List Step) : Prop :=
  ∃ before step after inner, steps = before ++ step :: after ∧ Reaches value before inner ∧
    Blocked inner step

section Steps

variable {value inner last : Json} {step : Step} {steps rest : List Step}

theorem follow?_eq_some_iff : step.follow? value = some inner ↔ Leads value step inner := by
  constructor
  · intro h
    cases step with
    | field name =>
      cases value with
      | object fields => exact .field h
      | _ => cases h
    | item position =>
      cases value with
      | array items => exact .item h
      | _ => cases h
  · rintro (h | h)
    · exact h
    · exact h

theorem follow?_eq_none_iff : step.follow? value = none ↔ Blocked value step := by
  constructor
  · intro h
    cases step with
    | field name =>
      by_cases hobject : ∃ fields, value = .object fields
      · obtain ⟨fields, rfl⟩ := hobject
        exact .missing (Fields.get?_eq_none_iff.mp h)
      · exact .notObject fun fields hfields => hobject ⟨fields, hfields⟩
    | item position =>
      by_cases harray : ∃ items, value = .array items
      · obtain ⟨items, rfl⟩ := harray
        exact .beyond (List.getElem?_eq_none_iff.mp h)
      · exact .notArray fun items hitems => harray ⟨items, hitems⟩
  · intro h
    cases h with
    | missing h => exact Fields.get?_eq_none_iff.mpr h
    | beyond h => exact List.getElem?_eq_none_iff.mpr h
    | notObject h =>
      cases value with
      | object fields => exact absurd rfl (h fields)
      | _ => rfl
    | notArray h =>
      cases value with
      | array items => exact absurd rfl (h items)
      | _ => rfl

theorem reaches_cons_iff :
    Reaches value (step :: rest) last ↔
      ∃ inner, Leads value step inner ∧ Reaches inner rest last := by
  constructor
  · rintro (_ | ⟨h, hrest⟩)
    exact ⟨_, h, hrest⟩
  · rintro ⟨inner, h, hrest⟩
    exact .step h hrest

theorem stops_cons_iff :
    Stops value (step :: rest) ↔
      Blocked value step ∨ ∃ inner, Leads value step inner ∧ Stops inner rest := by
  constructor
  · rintro ⟨before, blocked, after, inner, hsteps, hreaches, hblocked⟩
    cases before with
    | nil =>
      obtain ⟨rfl, _⟩ := List.cons.inj hsteps
      cases hreaches
      exact Or.inl hblocked
    | cons first before =>
      obtain ⟨rfl, hrest⟩ := List.cons.inj hsteps
      obtain ⟨next, hfirst, hothers⟩ := reaches_cons_iff.mp hreaches
      exact Or.inr ⟨next, hfirst, before, blocked, after, inner, hrest, hothers, hblocked⟩
  · rintro (hblocked | ⟨next, hstep, before, blocked, after, inner, rfl, hreaches, hblocked⟩)
    · exact ⟨[], step, rest, value, rfl, .here value, hblocked⟩
    · exact ⟨step :: before, blocked, after, inner, rfl, .step hstep hreaches, hblocked⟩

/-- What holds at every place of a form holds of the document itself and at every place of
all that its steps lead to. -/
theorem forall_reaches_iff {α : Type} {form : α → Json} {p : α → Prop} :
    (∀ steps x, Reaches value steps (form x) → p x) ↔
      (∀ x, value = form x → p x) ∧ ∀ step inner, Leads value step inner →
        ∀ steps x, Reaches inner steps (form x) → p x := by
  constructor
  · intro h
    constructor
    · intro x heq
      exact h [] x (heq ▸ .here value)
    · intro step inner hstep steps x hreaches
      exact h (step :: steps) x (.step hstep hreaches)
  · rintro ⟨hself, hbelow⟩ steps x hreaches
    cases steps with
    | nil =>
      cases hreaches
      exact hself x rfl
    | cons step rest =>
      obtain ⟨inner, hstep, hrest⟩ := reaches_cons_iff.mp hreaches
      exact hbelow step inner hstep rest x hrest

theorem descend?_eq_some_iff : descend? value steps = some last ↔ Reaches value steps last := by
  induction steps generalizing value with
  | nil =>
    constructor
    · rintro ⟨⟩
      exact .here _
    · rintro ⟨⟩
      rfl
  | cons step rest ih =>
    rw [descend?, Option.bind_eq_some_iff, reaches_cons_iff]
    simp only [follow?_eq_some_iff, ih]

theorem descend?_eq_none_iff : descend? value steps = none ↔ Stops value steps := by
  induction steps generalizing value with
  | nil =>
    apply iff_of_false nofun
    rintro ⟨before, step, after, inner, hsteps, _⟩
    simp at hsteps
  | cons step rest ih =>
    rw [descend?, stops_cons_iff, ← follow?_eq_none_iff]
    simp only [← follow?_eq_some_iff, ← ih]
    cases step.follow? value <;> simp

theorem descend?_append (value : Json) (steps rest : List Step) :
    descend? value (steps ++ rest) =
      (descend? value steps).bind fun inner => descend? inner rest := by
  induction steps generalizing value with
  | nil => rfl
  | cons step others ih =>
    rw [List.cons_append, descend?, descend?, Option.bind_assoc]
    exact Option.bind_congr fun inner _ => ih inner

end Steps

/-! Documents that a machine holds -/

/-- The length of every array in the document is a word. -/
def IsHeld (document : Json) : Prop :=
  ∀ steps items, Reaches document steps (.array items) → items.length ≤ Text.maxUnsigned

section Held

variable {document inner : Json} {step : Step} {steps : List Step}

theorem IsHeld.leads (h : IsHeld document) (hstep : Leads document step inner) :
    IsHeld inner :=
  (forall_reaches_iff.mp h).2 step inner hstep

theorem IsHeld.reaches (h : IsHeld document) (hsteps : Reaches document steps inner) :
    IsHeld inner := by
  induction hsteps with
  | here => exact h
  | step hstep _ ih => exact ih (h.leads hstep)

/-- No array of such a document has an item at a position that is no word. -/
theorem not_reaches_of_isHeld {position : Nat} (h : IsHeld document)
    (hmem : .item position ∈ steps) (hposition : Text.maxUnsigned < position) :
    ¬ Reaches document steps inner := by
  intro hsteps
  induction hsteps with
  | here => simp at hmem
  | @step value next last first rest hstep _ ih =>
    rcases List.mem_cons.mp hmem with rfl | hrest
    · cases hstep with
      | @item items _ _ hitem =>
        have hlength : items.length ≤ Text.maxUnsigned := h [] items (.here _)
        have hinside := (List.getElem?_eq_some_iff.mp hitem).1
        omega
    · exact ih (h.leads hstep) hrest

/-- A document is held when it is no longer than a word itself and all below it is held. -/
theorem isHeld_of_leads
    (hself : ∀ items, document = .array items → items.length ≤ Text.maxUnsigned)
    (hbelow : ∀ step inner, Leads document step inner → IsHeld inner) : IsHeld document :=
  forall_reaches_iff.mpr ⟨hself, hbelow⟩

theorem isHeld_number (n : JsonNumber) : IsHeld (.number n) := by
  apply isHeld_of_leads
  · intro items hitems
    cases hitems
  · intro step inner hstep
    cases hstep

theorem isHeld_array {items : List Json} (hlength : items.length ≤ Text.maxUnsigned)
    (h : ∀ item ∈ items, IsHeld item) : IsHeld (.array items) := by
  apply isHeld_of_leads
  · rintro _ ⟨⟩
    exact hlength
  · rintro _ inner (_ | hitem)
    exact h inner (List.mem_of_getElem? hitem)

theorem isHeld_object {fields : Fields} (h : ∀ field ∈ fields, IsHeld field.2) :
    IsHeld (.object fields) := by
  apply isHeld_of_leads
  · intro items hitems
    cases hitems
  · intro _ inner hstep
    cases hstep with
    | @field _ name _ hget => exact h (name, inner) (Fields.mem_of_get? hget)

end Held

end SignalMap.Globals
