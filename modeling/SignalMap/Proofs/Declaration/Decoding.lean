import Mathlib.Data.Option.Basic
import SignalMap.Declaration.Rules
import SignalMap.Proofs.Result

/-!
The rules that declarations make, kind by kind. Each builder is taken apart once: from
the parameters that it read follows the rule that it made. So a rule is of the kind
that was declared, and its references are the keys of the texts that the declaration
names entries by, in their order.
-/

namespace SignalMap

namespace Json

def text? : Json → Option String
  | .string text => some text
  | _ => none

theorem asString_eq_ok {document : Json} {text : String} :
    document.asString = .ok text ↔ document = .string text := by
  cases document <;> simp [asString]

/-- Null and a text are read; what is read is the text, if there is one. -/
theorem text?_of_asOptional {document : Json} {found : Option String}
    (h : asOptional asString document = .ok found) : document.text? = found := by
  cases document with
  | null =>
    cases h
    rfl
  | string text =>
    cases h
    rfl
  | bool flag => cases h
  | number n => cases h
  | array items => cases h
  | object fields => cases h

end Json

theorem Fields.required_eq_ok {α : Type} {fields : Fields} {name : String}
    {form : Json → Except FormFault α} {a : α} :
    fields.required name form = .ok a ↔
      ∃ value, fields.get? name = some value ∧ form value = .ok a := by
  unfold Fields.required
  cases fields.get? name with
  | none => simp
  | some value => simp

namespace Declaration

variable {schema : String} {parameters : Fields} {made : Rule}

theorem text?_eq_ok {name : String} {found : Option String} :
    text? parameters name = .ok found ↔ parameters.get? name = found.map .string := by
  unfold text?
  cases parameters.get? name with
  | none => cases found <;> simp
  | some value => cases found <;> cases value <;> simp

theorem text_eq_ok {name text : String} :
    Declaration.text parameters name = .ok text ↔ parameters.get? name = some (.string text) := by
  unfold Declaration.text
  constructor
  · intro h
    obtain ⟨found, hfound, h⟩ := bind_eq_ok.mp h
    cases found with
    | none => cases h
    | some text =>
      cases h
      exact text?_eq_ok.mp hfound
  · intro h
    exact bind_eq_ok.mpr ⟨some text, text?_eq_ok.mpr h, rfl⟩

theorem ofForm_eq_ok {α : Type} {result : Except FormFault α} {a : α} :
    ofForm result = .ok a ↔ result = .ok a :=
  mapError_eq_ok

/-! The builders -/

theorem exists_of_valueRule (h : valueRule parameters = .ok made) :
    ∃ source dtype, made = .value source dtype := by
  obtain ⟨dtype, _, h⟩ := bind_eq_ok.mp h
  obtain ⟨global, _, h⟩ := bind_eq_ok.mp h
  dsimp only at h
  split at h
  all_goals
    obtain ⟨source, _, h⟩ := bind_eq_ok.mp h
    obtain ⟨_, _, h⟩ := bind_eq_ok.mp h
    cases h
    exact ⟨source, dtype, rfl⟩

theorem exists_of_pluginRule (h : pluginRule parameters = .ok made) :
    ∃ plugin function args, made = .plugin plugin function args := by
  obtain ⟨_, _, h⟩ := bind_eq_ok.mp h
  obtain ⟨plugin, _, h⟩ := bind_eq_ok.mp h
  obtain ⟨function, _, h⟩ := bind_eq_ok.mp h
  obtain ⟨args, _, h⟩ := bind_eq_ok.mp h
  split at h
  next => cases h
  next =>
    cases h
    exact ⟨plugin, function, args, rfl⟩

theorem exists_of_dimRule (h : dimRule schema parameters = .ok made) :
    ∃ dtype,
      (∃ probe, parameters.get? "probe" = some (.string probe) ∧
        made = .dim (.probe (DataPath.normalizeKey schema probe)) dtype) ∨
      parameters.get? "probe" = none ∧
        ((∃ points, made = .dim (.values points) dtype) ∨
          ∃ count start step, count ≤ maxCount ∧ made = .dim (.range count start step) dtype) := by
  obtain ⟨dtype, _, h⟩ := bind_eq_ok.mp h
  obtain ⟨probe?, hprobe, h⟩ := bind_eq_ok.mp h
  have hprobe := text?_eq_ok.mp hprobe
  refine ⟨dtype, ?_⟩
  cases probe? with
  | some probe =>
    obtain ⟨_, _, h⟩ := bind_eq_ok.mp h
    cases h
    exact Or.inl ⟨probe, hprobe, rfl⟩
  | none =>
    refine Or.inr ⟨hprobe, ?_⟩
    dsimp only at h
    split at h
    next =>
      obtain ⟨points, _, h⟩ := bind_eq_ok.mp h
      obtain ⟨_, _, h⟩ := bind_eq_ok.mp h
      cases h
      exact Or.inl ⟨points, rfl⟩
    next count _ _ =>
      by_cases hlarge : maxCount < count.toNat
      · rw [if_pos hlarge] at h
        cases h
      · rw [if_neg hlarge] at h
        obtain ⟨start, _, h⟩ := bind_eq_ok.mp h
        obtain ⟨step, _, h⟩ := bind_eq_ok.mp h
        obtain ⟨_, _, h⟩ := bind_eq_ok.mp h
        cases h
        exact Or.inr ⟨count.toNat, start, step, Nat.le_of_not_lt hlarge, rfl⟩
    next => cases h
    next => cases h

theorem exists_of_sliceRule (h : sliceRule schema parameters = .ok made) :
    ∃ base text selector, parameters.get? "variable" = some (.string base) ∧
      Selector.parse text = .ok selector ∧
      made = .slice (DataPath.normalizeKey schema base) selector := by
  obtain ⟨base, hbase, h⟩ := bind_eq_ok.mp h
  split at h
  next => cases h
  next slice _ =>
    obtain ⟨text, _, h⟩ := bind_eq_ok.mp h
    obtain ⟨selector, hselector, h⟩ := bind_eq_ok.mp h
    obtain ⟨_, _, h⟩ := bind_eq_ok.mp h
    cases h
    exact ⟨base, text, selector, text_eq_ok.mp hbase, mapError_eq_ok.mp hselector, rfl⟩

theorem covered_of_filter_eq_nil {formula : Formula} {operands : List (String × Parameter)}
    (h : (formula.root.freeNames.filter fun name => !(operands.map Prod.fst).contains name) = []) :
    ∀ name ∈ formula.root.occurrences, name ∈ operands.map Prod.fst := by
  intro name hname
  have hfree : name ∈ formula.root.freeNames := List.mem_eraseDups.mpr hname
  simpa using List.filter_eq_nil_iff.mp h name hfree

/-- The parameters of an expression are read or left out, and every variable of it is
among them. -/
theorem exists_of_exprRule (h : exprRule schema parameters = .ok made) :
    ∃ formula operands,
      (∀ document, parameters.get? "parameters" = some document →
        parametersOfJson schema document = .ok operands) ∧
      (parameters.get? "parameters" = none → operands = []) ∧
      (∀ name ∈ formula.root.occurrences, name ∈ operands.map Prod.fst) ∧
      made = .expr formula operands := by
  obtain ⟨source, _, h⟩ := bind_eq_ok.mp h
  obtain ⟨formula, _, h⟩ := bind_eq_ok.mp h
  dsimp only at h
  refine ⟨formula, ?_⟩
  split at h
  next document hparameters =>
    obtain ⟨operands, hoperands, h⟩ := bind_eq_ok.mp h
    obtain ⟨_, _, h⟩ := bind_eq_ok.mp h
    split at h
    next hmissing =>
      cases h
      refine ⟨operands, ?_, ?_, covered_of_filter_eq_nil hmissing, rfl⟩
      · intro other hother
        rw [hparameters] at hother
        cases hother
        exact mapError_eq_ok.mp hoperands
      · intro hnone
        rw [hparameters] at hnone
        cases hnone
    next => cases h
  next hparameters =>
    obtain ⟨operands, hoperands, h⟩ := bind_eq_ok.mp h
    cases hoperands
    obtain ⟨_, _, h⟩ := bind_eq_ok.mp h
    split at h
    next hmissing =>
      cases h
      refine ⟨[], ?_, fun _ => rfl, covered_of_filter_eq_nil hmissing, rfl⟩
      intro other hother
      rw [hparameters] at hother
      cases hother
    next => cases h

theorem exists_of_customRule (h : customRule schema parameters = .ok made) :
    ∃ name base inner, ((parameters.get? "variable").bind Json.text?) = base ∧
      made = .custom name (base.map (DataPath.normalizeKey schema)) inner := by
  obtain ⟨_, _, h⟩ := bind_eq_ok.mp h
  obtain ⟨name, _, h⟩ := bind_eq_ok.mp h
  obtain ⟨base, hbase, h⟩ := bind_eq_ok.mp h
  obtain ⟨inner, _, h⟩ := bind_eq_ok.mp h
  split at h
  next => cases h
  next =>
    cases h
    refine ⟨name, base, inner, ?_, rfl⟩
    have hbase := ofForm_eq_ok.mp hbase
    unfold Fields.optional at hbase
    cases hvariable : parameters.get? "variable" with
    | none =>
      rw [hvariable] at hbase
      cases hbase
      rfl
    | some document =>
      rw [hvariable] at hbase
      exact Json.text?_of_asOptional hbase

theorem exists_of_offsetRule (h : offsetRule schema parameters = .ok made) :
    ∃ base amount, parameters.get? "variable" = some (.string base) ∧
      DataPath.normalizeKey schema base ≠ "" ∧
      made = .offset (DataPath.normalizeKey schema base) amount := by
  obtain ⟨_, _, h⟩ := bind_eq_ok.mp h
  obtain ⟨base, hbase, h⟩ := bind_eq_ok.mp h
  obtain ⟨amount, _, h⟩ := bind_eq_ok.mp h
  obtain ⟨document, hdocument, hstring⟩ := Fields.required_eq_ok.mp (ofForm_eq_ok.mp hbase)
  rw [Json.asString_eq_ok.mp hstring] at hdocument
  dsimp only at h
  split at h
  next => cases h
  next hne =>
    cases h
    exact ⟨base, amount, hdocument, by simpa using hne, rfl⟩

/-! What a rule shares with its declaration -/

theorem kind_of_rule {kind : RuleKind} (h : rule schema kind parameters = .ok made) :
    made.kind = kind := by
  cases kind with
  | value =>
    obtain ⟨_, _, rfl⟩ := exists_of_valueRule h
    rfl
  | plugin =>
    obtain ⟨_, _, _, rfl⟩ := exists_of_pluginRule h
    rfl
  | dim =>
    obtain ⟨_, ⟨_, _, rfl⟩ | ⟨_, ⟨_, rfl⟩ | ⟨_, _, _, _, rfl⟩⟩⟩ := exists_of_dimRule h
    · rfl
    · rfl
    · rfl
  | slice =>
    obtain ⟨_, _, _, _, _, rfl⟩ := exists_of_sliceRule h
    rfl
  | expr =>
    obtain ⟨_, _, _, _, _, rfl⟩ := exists_of_exprRule h
    rfl
  | custom =>
    obtain ⟨_, _, _, _, rfl⟩ := exists_of_customRule h
    rfl
  | offset =>
    obtain ⟨_, _, _, _, rfl⟩ := exists_of_offsetRule h
    rfl

def textsAt (parameters : Fields) (name : String) : List String :=
  ((parameters.get? name).bind Json.text?).toList

def writtenReferences (parameters : Fields) : RuleKind → List String
  | .dim => textsAt parameters "probe"
  | .slice | .custom | .offset => textsAt parameters "variable"
  | .expr =>
    match parameters.get? "parameters" with
    | some (.object fields) => fields.filterMap fun (_, value) => value.text?
    | _ => []
  | .value | .plugin => []

theorem textsAt_of_get? {name text : String} (h : parameters.get? name = some (.string text)) :
    textsAt parameters name = [text] := by
  unfold textsAt
  rw [h]
  rfl

/-- A parameter names an entry exactly when it is a text. -/
theorem key?_of_parameterOfJson {document : Json} {parameter : Parameter}
    (h : parameterOfJson schema document = .ok parameter) :
    parameter.key? = document.text?.map (DataPath.normalizeKey schema) := by
  cases document with
  | number n =>
    cases h
    rfl
  | string text =>
    cases h
    rfl
  | null | bool _ | array _ | object _ => cases h

theorem filterMap_key?_of_forall₂ {fields : Fields} {operands : List (String × Parameter)}
    (h : List.Forall₂ (fun field operand =>
      operand.2.key? = field.2.text?.map (DataPath.normalizeKey schema)) fields operands) :
    operands.filterMap (fun (_, p) => p.key?) =
      (fields.filterMap fun (_, value) => value.text?).map (DataPath.normalizeKey schema) := by
  induction h with
  | nil => rfl
  | @cons field operand fields operands hfirst _ ih =>
    obtain ⟨_, value⟩ := field
    obtain ⟨_, parameter⟩ := operand
    change parameter.key? = value.text?.map _ at hfirst
    cases htext : value.text? with
    | none =>
      rw [htext] at hfirst
      simpa [List.filterMap_cons, hfirst, htext] using ih
    | some text =>
      rw [htext] at hfirst
      simpa [List.filterMap_cons, hfirst, htext] using ih

theorem references_of_parametersOfJson {document : Json} {operands : List (String × Parameter)}
    (h : parametersOfJson schema document = .ok operands) :
    ∃ fields, document = .object fields ∧
      operands.filterMap (fun (_, p) => p.key?) =
        (fields.filterMap fun (_, value) => value.text?).map (DataPath.normalizeKey schema) := by
  obtain ⟨fields, hfields, h⟩ := bind_eq_ok.mp h
  have hdocument : document = .object fields := by
    cases document with
    | object own =>
      cases hfields
      rfl
    | null | bool _ | number _ | string _ | array _ => cases hfields
  refine ⟨fields, hdocument, filterMap_key?_of_forall₂ ((mapM_eq_ok.mp h).imp ?_)⟩
  rintro ⟨name, value⟩ operand hoperand
  obtain ⟨parameter, hparameter, hoperand⟩ := bind_eq_ok.mp hoperand
  cases hoperand
  exact key?_of_parameterOfJson hparameter

/-- The references of a rule are the keys of the texts by which its declaration names
entries. -/
theorem references_of_rule {kind : RuleKind} (h : rule schema kind parameters = .ok made) :
    made.references = (writtenReferences parameters kind).map (DataPath.normalizeKey schema) := by
  cases kind with
  | value =>
    obtain ⟨_, _, rfl⟩ := exists_of_valueRule h
    rfl
  | plugin =>
    obtain ⟨_, _, _, rfl⟩ := exists_of_pluginRule h
    rfl
  | dim =>
    obtain ⟨_, ⟨probe, hprobe, rfl⟩ | ⟨hprobe, hmade⟩⟩ := exists_of_dimRule h
    · simp only [writtenReferences, textsAt_of_get? hprobe]
      rfl
    · simp only [writtenReferences, textsAt, hprobe]
      rcases hmade with ⟨_, rfl⟩ | ⟨_, _, _, _, rfl⟩
      · rfl
      · rfl
  | slice =>
    obtain ⟨base, _, _, hbase, _, rfl⟩ := exists_of_sliceRule h
    simp only [writtenReferences, textsAt_of_get? hbase]
    rfl
  | expr =>
    obtain ⟨formula, operands, hread, hnone, _, rfl⟩ := exists_of_exprRule h
    unfold writtenReferences
    cases hparameters : parameters.get? "parameters" with
    | none =>
      rw [hnone hparameters]
      rfl
    | some document =>
      obtain ⟨fields, rfl, hreferences⟩ := references_of_parametersOfJson (hread _ hparameters)
      exact hreferences
  | custom =>
    obtain ⟨name, base, _, hbase, rfl⟩ := exists_of_customRule h
    simp only [writtenReferences, textsAt, hbase]
    cases base with
    | none => rfl
    | some base => rfl
  | offset =>
    obtain ⟨base, _, hbase, _, rfl⟩ := exists_of_offsetRule h
    simp only [writtenReferences, textsAt_of_get? hbase]
    rfl

/-! Declarations and documents -/

/-- A declaration makes an entry exactly when its key has segments, its kind is known
and its parameters are those of a rule of that kind. -/
theorem entry_eq_ok {schema : String} {d : Declaration} {e : Entry} :
    d.entry schema = .ok e ↔
      e.key = DataPath.normalizeKey schema d.key ∧ e.key ≠ "" ∧
        ∃ kind, RuleKind.ofName? d.kind = some kind ∧
          rule schema kind d.parameters = .ok e.rule := by
  obtain ⟨key, made⟩ := e
  unfold entry
  dsimp only
  by_cases hempty : (DataPath.normalizeKey schema d.key).isEmpty
  · rw [if_pos hempty]
    constructor
    · intro h
      obtain ⟨_, hfail, _⟩ := bind_eq_ok.mp h
      cases hfail
    · rintro ⟨rfl, hne, _⟩
      exact absurd (by simpa using hempty) hne
  · rw [if_neg hempty]
    cases RuleKind.ofName? d.kind with
    | none =>
      constructor
      · intro h
        cases h
      · rintro ⟨_, _, kind, hkind, _⟩
        cases hkind
    | some kind =>
      change (rule schema kind d.parameters >>= fun made => _) = _ ↔ _
      constructor
      · intro h
        obtain ⟨_, hrule, h⟩ := bind_eq_ok.mp h
        obtain ⟨rfl, rfl⟩ := Entry.mk.inj (Except.ok.inj h)
        exact ⟨rfl, by simpa using hempty, kind, rfl, hrule⟩
      · rintro ⟨rfl, _, _, hkind, hrule⟩
        cases hkind
        exact bind_eq_ok.mpr ⟨made, hrule, rfl⟩

def Declares (schema : String) (document : Json) (e : Entry) : Prop :=
  ∃ d, ofJson document = .ok d ∧ d.entry schema = .ok e

/-- The position of a document is for its faults only. -/
theorem entryAt_eq_ok {position : Nat} {document : Json} {e : Entry} :
    entryAt schema position document = .ok e ↔ Declares schema document e := by
  unfold entryAt Declares
  cases ofJson document with
  | error fault => simp
  | ok d => simp [mapError_eq_ok]

/-- Declarations are decoded one by one: each declares one entry. -/
theorem entriesFrom_eq_ok {position : Nat} {documents : List Json} {entries : List Entry} :
    entriesFrom schema position documents = .ok entries ↔
      List.Forall₂ (Declares schema) documents entries := by
  induction documents generalizing position entries with
  | nil =>
    rw [List.forall₂_nil_left_iff]
    constructor
    · intro h
      cases h
      rfl
    · rintro rfl
      rfl
  | cons document rest ih =>
    rw [List.forall₂_cons_left_iff]
    constructor
    · intro h
      obtain ⟨e, he, h⟩ := bind_eq_ok.mp h
      obtain ⟨others, hothers, h⟩ := bind_eq_ok.mp h
      cases h
      exact ⟨e, others, entryAt_eq_ok.mp he, ih.mp hothers, rfl⟩
    · rintro ⟨e, others, he, hothers, rfl⟩
      exact bind_eq_ok.mpr ⟨e, entryAt_eq_ok.mpr he, bind_eq_ok.mpr ⟨others, ih.mpr hothers, rfl⟩⟩

end Declaration

/-- A document of entries is an array of their declarations. -/
theorem Entry.ofDocument_eq_ok {schema : String} {document : Json} {entries : List Entry} :
    Entry.ofDocument schema document = .ok entries ↔
      ∃ documents, document = .array documents ∧
        List.Forall₂ (Declaration.Declares schema) documents entries := by
  cases document with
  | array documents => simp [Entry.ofDocument, Declaration.entriesFrom_eq_ok]
  | null | bool _ | number _ | string _ | object _ => simp [Entry.ofDocument]

end SignalMap
