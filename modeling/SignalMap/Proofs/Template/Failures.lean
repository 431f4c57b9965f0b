import SignalMap.Proofs.Json.Reading
import SignalMap.Proofs.Template.Documents

/-!
Documents that cannot be rendered. A document has a value when each of its texts has one
alone, and otherwise it fails as the first of its texts that has none, in the order of
the document.
-/

namespace SignalMap.Template

open Globals

variable {scope : Fields} {document inner : Json} {step : Step} {fault : TemplateFault}

def Fillable (scope : Fields) (document : Json) : Prop :=
  ∀ steps text, Reaches document steps (.string text) →
    ∃ value, render scope (.string text) = .ok value

def FirstFailure (scope : Fields) (document : Json) (fault : TemplateFault) : Prop :=
  ∃ steps text, Reaches document steps (.string text) ∧
    render scope (.string text) = .error fault ∧
    ∀ others earlier, Reaches document others (.string earlier) → Precedes others steps →
      ∃ value, render scope (.string earlier) = .ok value

theorem renderItems_eq_error_iff {items : List Json} :
    renderItems scope items = .error fault ↔
      ∃ (position : Nat) (item : Json), items[position]? = some item ∧
        render scope item = .error fault ∧
        ∀ other earlier, other < position → items[other]? = some earlier →
          ∃ value, render scope earlier = .ok value := by
  induction items with
  | nil =>
    apply iff_of_false
    · intro h
      cases h
    · intro h
      obtain ⟨position, item, hitem, _⟩ := h
      cases hitem
  | cons first rest ih =>
    rw [renderItems]
    constructor
    · intro h
      rcases bind_eq_error.mp h with hfirst | ⟨made, hmade, h⟩
      · exact ⟨0, first, rfl, hfirst, fun _ _ hother => absurd hother (Nat.not_lt_zero _)⟩
      rcases bind_eq_error.mp h with hrest | ⟨_, _, h⟩
      · obtain ⟨position, item, hitem, herror, hearlier⟩ := ih.mp hrest
        refine ⟨position + 1, item, hitem, herror, ?_⟩
        intro other earlier hother hget
        cases other with
        | zero =>
          cases hget
          exact ⟨made, hmade⟩
        | succ other => exact hearlier other earlier (by omega) hget
      · cases h
    · intro h
      obtain ⟨position, item, hitem, herror, hearlier⟩ := h
      cases position with
      | zero =>
        cases hitem
        exact bind_eq_error.mpr (Or.inl herror)
      | succ position =>
        obtain ⟨made, hmade⟩ := hearlier 0 first (by omega) rfl
        have hrest : renderItems scope rest = .error fault := by
          refine ih.mpr ⟨position, item, hitem, herror, ?_⟩
          intro other earlier hother hget
          exact hearlier (other + 1) earlier (by omega) hget
        exact bind_eq_error.mpr (Or.inr ⟨made, hmade, bind_eq_error.mpr (Or.inl hrest)⟩)

theorem renderFields_eq_error_iff {fields : Fields} (hsorted : fields.IsSorted) :
    renderFields scope fields = .error fault ↔
      ∃ name inner, Fields.get? fields name = some inner ∧ render scope inner = .error fault ∧
        ∀ other earlier, other < name → Fields.get? fields other = some earlier →
          ∃ value, render scope earlier = .ok value := by
  induction fields with
  | nil =>
    apply iff_of_false
    · intro h
      cases h
    · intro h
      obtain ⟨name, inner, hinner, _⟩ := h
      cases hinner
  | cons field rest ih =>
    obtain ⟨own, first⟩ := field
    obtain ⟨hown, hrest⟩ := List.pairwise_cons.mp hsorted
    -- Every name behind the first one is greater.
    have hbehind {name : String} {inner : Json} (hname : name ≠ own)
        (hget : Fields.get? ((own, first) :: rest) name = some inner) :
        Fields.get? rest name = some inner ∧ own < name := by
      have hinner : Fields.get? rest name = some inner := (if_neg hname).symm.trans hget
      exact ⟨hinner, hown name (Fields.mem_names_iff.mpr ⟨inner, hinner⟩)⟩
    have hself : Fields.get? ((own, first) :: rest) own = some first := if_pos rfl
    rw [renderFields]
    constructor
    · intro h
      rcases bind_eq_error.mp h with hfirst | ⟨made, hmade, h⟩
      · refine ⟨own, first, hself, hfirst, ?_⟩
        intro other earlier hother hget
        have hgreater := (hbehind (ne_of_lt hother) hget).2
        exact absurd hother (lt_asymm hgreater)
      rcases bind_eq_error.mp h with hothers | ⟨_, _, h⟩
      · obtain ⟨name, inner, hinner, herror, hearlier⟩ := (ih hrest).mp hothers
        have hname : own < name := hown name (Fields.mem_names_iff.mpr ⟨inner, hinner⟩)
        refine ⟨name, inner, (if_neg (ne_of_gt hname)).trans hinner, herror, ?_⟩
        intro other earlier hother hget
        by_cases heq : other = own
        · rw [heq, hself] at hget
          cases hget
          exact ⟨made, hmade⟩
        · exact hearlier other earlier hother (hbehind heq hget).1
      · cases h
    · intro h
      obtain ⟨name, inner, hinner, herror, hearlier⟩ := h
      by_cases heq : name = own
      · rw [heq, hself] at hinner
        cases hinner
        exact bind_eq_error.mpr (Or.inl herror)
      · obtain ⟨hget, hname⟩ := hbehind heq hinner
        obtain ⟨made, hmade⟩ := hearlier own first hname hself
        have hothers : renderFields scope rest = .error fault := by
          refine (ih hrest).mpr ⟨name, inner, hget, herror, ?_⟩
          intro other earlier hother hfound
          have hgreater : own < other := hown other (Fields.mem_names_iff.mpr ⟨_, hfound⟩)
          exact hearlier other earlier hother ((if_neg (ne_of_gt hgreater)).trans hfound)
        exact bind_eq_error.mpr (Or.inr ⟨made, hmade, bind_eq_error.mpr (Or.inl hothers)⟩)

/-- Where a document is no text it fails as the first of what its steps lead to. -/
theorem render_eq_error_iff_of_leads (hordered : IsOrdered document)
    (hnot : ∀ text, document ≠ .string text) :
    render scope document = .error fault ↔
      ∃ step inner, Leads document step inner ∧ render scope inner = .error fault ∧
        ∀ other earlier, other.Before step → Leads document other earlier →
          ∃ value, render scope earlier = .ok value := by
  cases document with
  | string text => exact absurd rfl (hnot text)
  | array items =>
    rw [render, map_eq_error, renderItems_eq_error_iff]
    constructor
    · intro h
      obtain ⟨position, item, hitem, herror, hearlier⟩ := h
      refine ⟨.item position, item, .item hitem, herror, ?_⟩
      intro other earlier hbefore hother
      cases hbefore with
      | item hlt =>
        cases hother with
        | item hget => exact hearlier _ earlier hlt hget
    · intro h
      obtain ⟨_, item, hstep, herror, hearlier⟩ := h
      cases hstep with
      | item hitem =>
        refine ⟨_, item, hitem, herror, ?_⟩
        intro other earlier hlt hget
        exact hearlier _ earlier (.item hlt) (.item hget)
  | object fields =>
    rw [render, map_eq_error, renderFields_eq_error_iff hordered.isSorted]
    constructor
    · intro h
      obtain ⟨name, inner, hinner, herror, hearlier⟩ := h
      refine ⟨.field name, inner, .field hinner, herror, ?_⟩
      intro other earlier hbefore hother
      cases hbefore with
      | field hlt =>
        cases hother with
        | field hget => exact hearlier _ earlier hlt hget
    · intro h
      obtain ⟨_, inner, hstep, herror, hearlier⟩ := h
      cases hstep with
      | field hinner =>
        refine ⟨_, inner, hinner, herror, ?_⟩
        intro other earlier hlt hget
        exact hearlier _ earlier (.field hlt) (.field hget)
  | _ =>
    apply iff_of_false
    · intro h
      cases h
    · intro h
      obtain ⟨_, _, hstep, _⟩ := h
      cases hstep

theorem firstFailure_iff_of_leads (hnot : ∀ text, document ≠ .string text) :
    FirstFailure scope document fault ↔
      ∃ step inner, Leads document step inner ∧ FirstFailure scope inner fault ∧
        ∀ other earlier, other.Before step → Leads document other earlier →
          Fillable scope earlier := by
  constructor
  · intro h
    obtain ⟨steps, text, hreaches, herror, hearlier⟩ := h
    cases hreaches with
    | here => exact absurd rfl (hnot text)
    | @step _ inner _ step rest hstep hrest =>
      refine ⟨step, inner, hstep, ⟨rest, text, hrest, herror, ?_⟩, ?_⟩
      · intro others earlier hothers hprecedes
        exact hearlier (step :: others) earlier (.step hstep hothers)
          (precedes_cons_iff.mpr (Or.inr ⟨rfl, hprecedes⟩))
      · intro other earlier hbefore hother others own hown
        exact hearlier (other :: others) own (.step hother hown)
          (precedes_cons_iff.mpr (Or.inl hbefore))
  · intro h
    obtain ⟨step, inner, hstep, ⟨steps, text, hreaches, herror, hinner⟩, hearlier⟩ := h
    refine ⟨step :: steps, text, .step hstep hreaches, herror, ?_⟩
    intro others earlier hothers hprecedes
    cases hothers with
    | here => exact absurd rfl (hnot earlier)
    | step hother hrest =>
      rcases precedes_cons_iff.mp hprecedes with hbefore | ⟨rfl, hbehind⟩
      · exact hearlier _ _ hbefore hother _ _ hrest
      · rw [leads_unique hother hstep] at hrest
        exact hinner _ earlier hrest hbehind

theorem firstFailure_string_iff {text : String} :
    FirstFailure scope (.string text) fault ↔ render scope (.string text) = .error fault := by
  constructor
  · intro h
    obtain ⟨steps, own, hreaches, herror, _⟩ := h
    cases hreaches with
    | here => exact herror
    | step hstep _ => cases hstep
  · intro h
    refine ⟨[], text, .here _, h, ?_⟩
    intro others earlier _ hprecedes
    exact absurd hprecedes (not_precedes_nil others)

/-- Rendering succeeds when every text has a value, once its failures are those of texts. -/
theorem exists_render_iff_of_error
    (h : ∀ fault, render scope document = .error fault ↔ FirstFailure scope document fault) :
    (∃ rendered, render scope document = .ok rendered) ↔ Fillable scope document := by
  constructor
  · intro hrender steps text htext
    obtain ⟨rendered, hrendered⟩ := hrender
    obtain ⟨value, _, hvalue⟩ := reaches_of_render hrendered htext
    exact ⟨value, hvalue⟩
  · intro hfillable
    cases hrender : render scope document with
    | ok rendered => exact ⟨rendered, rfl⟩
    | error fault =>
      obtain ⟨steps, text, htext, herror, _⟩ := (h fault).mp hrender
      obtain ⟨value, hvalue⟩ := hfillable steps text htext
      rw [hvalue] at herror
      cases herror

theorem render_eq_error_iff (hordered : IsOrdered document) :
    render scope document = .error fault ↔ FirstFailure scope document fault := by
  induction document using leads_induction generalizing fault with
  | h document ih =>
    by_cases htext : ∃ text, document = .string text
    · obtain ⟨text, rfl⟩ := htext
      exact firstFailure_string_iff.symm
    · have hnot : ∀ text, document ≠ .string text := fun text heq => htext ⟨text, heq⟩
      have hbelow {step : Step} {inner : Json} (hstep : Leads document step inner)
          (fault : TemplateFault) :
          render scope inner = .error fault ↔ FirstFailure scope inner fault :=
        ih step inner hstep (hordered.leads hstep)
      rw [render_eq_error_iff_of_leads hordered hnot, firstFailure_iff_of_leads hnot]
      constructor
      · intro h
        obtain ⟨step, inner, hstep, herror, hearlier⟩ := h
        refine ⟨step, inner, hstep, (hbelow hstep fault).mp herror, ?_⟩
        intro other earlier hbefore hother
        exact (exists_render_iff_of_error (hbelow hother)).mp
          (hearlier other earlier hbefore hother)
      · intro h
        obtain ⟨step, inner, hstep, hfailure, hearlier⟩ := h
        refine ⟨step, inner, hstep, (hbelow hstep fault).mpr hfailure, ?_⟩
        intro other earlier hbefore hother
        exact (exists_render_iff_of_error (hbelow hother)).mpr
          (hearlier other earlier hbefore hother)

theorem fillable_iff :
    Fillable scope document ↔ ∀ steps text, Reaches document steps (.string text) →
      ∃ value, Makes scope text value := by
  simp only [Fillable, render, renderString_eq_ok_iff]

/-- Arguments are rendered exactly when something is made of each of their texts. -/
theorem exists_renderFields_iff {fields : Fields} (hordered : IsOrdered (.object fields)) :
    (∃ rendered, renderFields scope fields = .ok rendered) ↔
      ∀ steps text, Reaches (.object fields) steps (.string text) →
        ∃ value, Makes scope text value := by
  rw [← fillable_iff, ← exists_render_iff_of_error fun _ => render_eq_error_iff hordered]
  simp [render, map_eq_ok]

/-- The arguments that are given are rendered text by text. They succeed with what has
their places, where nothing but texts with an opening changed, and each of these became
what it becomes alone. They succeed exactly when every text does alone, and otherwise
their fault is that of the first text that has one. -/
theorem renderFields_text_by_text {scope fields : Fields} (h : IsOrdered (.object fields)) :
    (∀ rendered, renderFields scope fields = .ok rendered ↔
      Renders scope (.object fields) (.object rendered)) ∧
    ((∃ rendered, renderFields scope fields = .ok rendered) ↔
      Fillable scope (.object fields)) ∧
    (∀ fault, renderFields scope fields = .error fault ↔
      FirstFailure scope (.object fields) fault) := by
  have hok (rendered : Json) : render scope (.object fields) = .ok rendered ↔
      ∃ made, renderFields scope fields = .ok made ∧ .object made = rendered := by
    rw [render]
    exact map_eq_ok
  refine ⟨?_, ?_, ?_⟩
  · intro rendered
    rw [← render_eq_ok_iff h, hok]
    simp
  · rw [← exists_render_iff_of_error fun _ => render_eq_error_iff h]
    simp [hok]
  · intro fault
    rw [← render_eq_error_iff h, render]
    exact map_eq_error.symm

def probeFields : Fields :=
  [("at", .array [.string "top", .null, .string "\x7b\x7bshot\x7d\x7d"]),
    ("\x7b\x7bname\x7d\x7d", .string "\x7b\x7brun\x7d\x7d")]

def probeText : String :=
  "\x7b\"\x7b\x7bname\x7d\x7d\": \"\x7b\x7brun\x7d\x7d\",
    \"at\": [\"top\", null, \"\x7b\x7bshot\x7d\x7d\"]\x7d"

theorem isOrdered_probeFields : IsOrdered (.object probeFields) := by
  have hread : Json.parse? probeText = some (.object probeFields) := by rfl
  exact Json.isOrdered_of_parse? hread

def probeScope : Fields :=
  [("run", .string "\x7b\x7bshot\x7d\x7d"), ("shot", .number (.unsigned 5))]

theorem renderFields_text_by_text_probe :
    IsOrdered (.object probeFields) ∧
      Renders probeScope (.object probeFields)
        (.object [("at", .array [.string "top", .null, .number (.unsigned 5)]),
          ("\x7b\x7bname\x7d\x7d", .string "\x7b\x7bshot\x7d\x7d")]) ∧
      ¬ Fillable [] (.object probeFields) ∧
      FirstFailure [] (.object probeFields) (.unknown "shot") := by
  have hliteral (scope : Fields) : renderString scope "top" = .ok (.string "top") :=
    renderString_of_no_opening (by decide)
  have hfailure : renderFields [] probeFields = .error (.unknown "shot") := by
    simp only [probeFields, renderFields, render, renderItems, hliteral]
    rfl
  refine ⟨isOrdered_probeFields, ?_, ?_, ?_⟩
  · apply ((renderFields_text_by_text isOrdered_probeFields).1 _).mp
    simp only [probeFields, renderFields, render, renderItems, hliteral]
    rfl
  · intro hfillable
    obtain ⟨made, hmade⟩ := (renderFields_text_by_text isOrdered_probeFields).2.1.mpr hfillable
    rw [hfailure] at hmade
    cases hmade
  · exact ((renderFields_text_by_text isOrdered_probeFields).2.2 _).mp hfailure

end SignalMap.Template
