import SignalMap.Proofs.Globals.Descent

/-!
The order of a document. Fields follow one another by their names and items by their
positions, so one place of a document comes before another where the first steps that
differ do. A document is ordered when the names of every object in it rise.
-/

namespace SignalMap.Globals

variable {document inner other : Json} {step : Step}

inductive Step.Before : Step → Step → Prop
  | field {name other : String} (h : name < other) : Before (.field name) (.field other)
  | item {position other : Nat} (h : position < other) : Before (.item position) (.item other)

def Precedes (steps others : List Step) : Prop :=
  List.Lex Step.Before steps others

theorem precedes_cons_iff {first second : Step} {steps others : List Step} :
    Precedes (first :: steps) (second :: others) ↔
      first.Before second ∨ first = second ∧ Precedes steps others := by
  constructor
  · intro h
    cases h with
    | rel hbefore => exact Or.inl hbefore
    | cons hrest => exact Or.inr ⟨rfl, hrest⟩
  · intro h
    rcases h with hbefore | ⟨rfl, hrest⟩
    · exact .rel hbefore
    · exact .cons hrest

theorem not_precedes_nil (steps : List Step) : ¬ Precedes steps [] := by
  intro h
  cases h

/-! Going down -/

theorem leads_unique (h : Leads document step inner) (hother : Leads document step other) :
    inner = other := by
  rw [← follow?_eq_some_iff] at h hother
  rw [h] at hother
  exact Option.some.inj hother

theorem sizeOf_lt_of_leads (h : Leads document step inner) : sizeOf inner < sizeOf document := by
  cases h with
  | @field fields name _ h =>
    have hfield := List.sizeOf_lt_of_mem (Fields.mem_of_get? h)
    simp only [Prod.mk.sizeOf_spec, Json.object.sizeOf_spec] at hfield ⊢
    omega
  | @item items position _ h =>
    have hitem := List.sizeOf_lt_of_mem (List.mem_of_getElem? h)
    rw [Json.array.sizeOf_spec]
    omega

/-- What holds of a document when it holds of all that its steps lead to holds of every
document. -/
theorem leads_induction {motive : Json → Prop}
    (h : ∀ document, (∀ step inner, Leads document step inner → motive inner) → motive document)
    (document : Json) : motive document :=
  h document fun _ inner _ => leads_induction h inner
termination_by sizeOf document
decreasing_by
  apply sizeOf_lt_of_leads
  assumption

/-! Ordered documents -/

def IsOrdered (document : Json) : Prop :=
  ∀ steps fields, Reaches document steps (.object fields) → Fields.IsSorted fields

theorem IsOrdered.leads (h : IsOrdered document) (hstep : Leads document step inner) :
    IsOrdered inner :=
  (forall_reaches_iff.mp h).2 step inner hstep

theorem IsOrdered.isSorted {fields : Fields} (h : IsOrdered (.object fields)) : fields.IsSorted :=
  h [] fields (.here _)

/-- A document is ordered when its own names rise and all below it is ordered. -/
theorem isOrdered_of_leads
    (hself : ∀ fields, document = .object fields → Fields.IsSorted fields)
    (hbelow : ∀ step inner, Leads document step inner → IsOrdered inner) :
    IsOrdered document :=
  forall_reaches_iff.mpr ⟨hself, hbelow⟩

theorem isOrdered_array {items : List Json} (h : ∀ item ∈ items, IsOrdered item) :
    IsOrdered (.array items) := by
  apply isOrdered_of_leads
  · intro fields hfields
    cases hfields
  · intro _ inner hstep
    cases hstep with
    | item hitem => exact h inner (List.mem_of_getElem? hitem)

theorem isOrdered_object {fields : Fields} (hsorted : fields.IsSorted)
    (h : ∀ field ∈ fields, IsOrdered field.2) : IsOrdered (.object fields) := by
  apply isOrdered_of_leads
  · intro own hown
    cases hown
    exact hsorted
  · intro _ inner hstep
    cases hstep with
    | @field _ name _ hget => exact h (name, inner) (Fields.mem_of_get? hget)

end SignalMap.Globals
