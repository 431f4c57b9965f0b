import SignalMap.Facility
import SignalMap.Proofs.Declaration.Decoding
import SignalMap.Proofs.Json.Fields

/-!
Every parameter of a declaration is used. A rule is made from parameters of a form:
those that must be given, and those that may be. The parameters that decide between two
forms of one kind are among those that must be given, so a parameter of the other form,
or any other parameter, is refused when it is added.
-/

namespace SignalMap

structure ParameterForm where
  required : List String
  optional : List String

namespace ParameterForm

def names (f : ParameterForm) : List String :=
  f.required ++ f.optional

structure Fits (f : ParameterForm) (given : List String) : Prop where
  required : ∀ name ∈ f.required, name ∈ given
  known : ∀ name ∈ given, name ∈ f.names

end ParameterForm

namespace Rule

/-- The parameters that a rule is made from. A value is a document or a global, and an
axis has one of three forms. -/
def form : Rule → ParameterForm
  | .value (.literal _) _ => ⟨["value"], ["dtype"]⟩
  | .value (.global _) _ => ⟨["global"], ["dtype"]⟩
  | .plugin .. => ⟨["plugin"], ["function", "args"]⟩
  | .dim (.probe _) _ => ⟨["probe"], ["dtype"]⟩
  | .dim (.values _) _ => ⟨["values"], ["dtype"]⟩
  | .dim (.range ..) _ => ⟨["count"], ["start", "step", "dtype"]⟩
  | .slice .. => ⟨["variable", "slice"], []⟩
  | .expr .. => ⟨["expression"], ["parameters"]⟩
  | .custom .. => ⟨["name"], ["variable", "parameters"]⟩
  | .offset .. => ⟨["variable", "offset"], []⟩

/-- The forms of one kind are told apart by what must be given. -/
theorem form_eq_of_required {r other : Rule} (hkind : r.kind = other.kind)
    (h : ∀ name ∈ r.form.required, name ∈ other.form.names) : other.form = r.form := by
  cases r with
  | value source dtype =>
    cases other with
    | value found _ => cases source <;> cases found <;> simp [form, ParameterForm.names] at h ⊢
    | _ => cases hkind
  | dim axis dtype =>
    cases other with
    | dim found _ => cases axis <;> cases found <;> simp [form, ParameterForm.names] at h ⊢
    | _ => cases hkind
  | _ =>
    cases other <;> simp [kind] at hkind
    rfl

end Rule

theorem Json.asFields_eq_ok {document : Json} {expected : String} {fields : Fields} :
    document.asFields expected = .ok fields ↔ document = .object fields := by
  cases document <;> simp [asFields]

namespace Fields

/-- A record names every field that passes its check. -/
theorem names_of_check {record : List (String × (Json → Except FormFault Unit))} {fields : Fields}
    (h : fields.check record = .ok ()) : ∀ name ∈ fields.names, name ∈ record.map Prod.fst := by
  intro name hname
  obtain ⟨field, hfield, rfl⟩ := List.mem_map.mp hname
  have hform := forM_eq_ok.mp h field hfield
  dsimp only at hform
  split at hform
  next form hlookup =>
    obtain ⟨before, after, hrecord, _⟩ := List.lookup_eq_some_iff.mp hlookup
    simp [hrecord]
  next => cases hform

end Fields

namespace Declaration

variable {schema : String} {parameters : Fields} {made : Rule}

theorem refuseOthers_eq_ok {used : List String} :
    refuseOthers parameters used = .ok () ↔ ∀ name ∈ parameters.names, name ∈ used := by
  unfold refuseOthers
  split
  next hnil => simpa [List.filter_eq_nil_iff] using hnil
  next hne =>
    apply iff_of_false nofun
    intro hall
    apply hne
    simpa [List.filter_eq_nil_iff] using hall

/-- The parameters that are read are those of the form, but for some that are not there. -/
theorem fits_of_used {f : ParameterForm} {used : List String}
    (hknown : ∀ name ∈ parameters.names, name ∈ used)
    (hused : ∀ name ∈ used, name ∈ f.names ∨ parameters.get? name = none)
    (hrequired : ∀ name ∈ f.required, ∃ value, parameters.get? name = some value) :
    f.Fits parameters.names := by
  constructor
  · intro name hname
    exact Fields.mem_names_iff.mpr (hrequired name hname)
  · intro name hname
    obtain ⟨value, hvalue⟩ := Fields.mem_names_iff.mp hname
    rcases hused name (hknown name hname) with hmem | hnone
    · exact hmem
    · rw [hvalue] at hnone
      cases hnone

/-! The builders -/

theorem fits_of_valueRule (h : valueRule parameters = .ok made) :
    made.form.Fits parameters.names := by
  obtain ⟨dtype, _, h⟩ := bind_eq_ok.mp h
  obtain ⟨global, hglobal, h⟩ := bind_eq_ok.mp h
  have hglobal := text?_eq_ok.mp hglobal
  cases hvalue : parameters.get? "value" with
  | some value =>
    rw [hvalue] at h
    cases global with
    | some path => cases h
    | none =>
      obtain ⟨source, hsource, h⟩ := bind_eq_ok.mp h
      obtain ⟨_, hothers, h⟩ := bind_eq_ok.mp h
      cases hsource
      cases h
      apply fits_of_used (refuseOthers_eq_ok.mp hothers)
      · simp [Rule.form, ParameterForm.names, hglobal]
      · simp [Rule.form, hvalue]
  | none =>
    rw [hvalue] at h
    cases global with
    | none => cases h
    | some path =>
      obtain ⟨source, hsource, h⟩ := bind_eq_ok.mp h
      obtain ⟨_, hothers, h⟩ := bind_eq_ok.mp h
      cases hsource
      cases h
      apply fits_of_used (refuseOthers_eq_ok.mp hothers)
      · simp [Rule.form, ParameterForm.names, hvalue]
      · simp [Rule.form, hglobal]

theorem fits_of_pluginRule (h : pluginRule parameters = .ok made) :
    made.form.Fits parameters.names := by
  obtain ⟨_, hcheck, h⟩ := bind_eq_ok.mp h
  obtain ⟨plugin, hplugin, h⟩ := bind_eq_ok.mp h
  obtain ⟨function, _, h⟩ := bind_eq_ok.mp h
  obtain ⟨args, _, h⟩ := bind_eq_ok.mp h
  obtain ⟨value, hvalue, _⟩ := Fields.required_eq_ok.mp (ofForm_eq_ok.mp hplugin)
  split at h
  next => cases h
  next =>
    cases h
    apply fits_of_used (Fields.names_of_check (ofForm_eq_ok.mp hcheck))
    · simp [Rule.form, ParameterForm.names, pluginRecord]
    · simp [Rule.form, hvalue]

theorem fits_of_dimRule (h : dimRule schema parameters = .ok made) :
    made.form.Fits parameters.names := by
  obtain ⟨dtype, _, h⟩ := bind_eq_ok.mp h
  obtain ⟨probe?, hprobe, h⟩ := bind_eq_ok.mp h
  have hprobe := text?_eq_ok.mp hprobe
  cases probe? with
  | some probe =>
    obtain ⟨_, hothers, h⟩ := bind_eq_ok.mp h
    cases h
    apply fits_of_used (refuseOthers_eq_ok.mp hothers)
    · simp [Rule.form, ParameterForm.names]
    · simp [Rule.form, hprobe]
  | none =>
    dsimp only at h
    split at h
    next hvalues =>
      obtain ⟨points, _, h⟩ := bind_eq_ok.mp h
      obtain ⟨_, hothers, h⟩ := bind_eq_ok.mp h
      cases h
      apply fits_of_used (refuseOthers_eq_ok.mp hothers)
      · simp [Rule.form, ParameterForm.names]
      · simp [Rule.form, hvalues]
    next count _ hcount =>
      by_cases hlarge : maxCount < count.toNat
      · rw [if_pos hlarge] at h
        cases h
      · rw [if_neg hlarge] at h
        obtain ⟨start, _, h⟩ := bind_eq_ok.mp h
        obtain ⟨step, _, h⟩ := bind_eq_ok.mp h
        obtain ⟨_, hothers, h⟩ := bind_eq_ok.mp h
        cases h
        apply fits_of_used (refuseOthers_eq_ok.mp hothers)
        · simp [Rule.form, ParameterForm.names]
        · simp [Rule.form, hcount]
    next => cases h
    next => cases h

theorem fits_of_sliceRule (h : sliceRule schema parameters = .ok made) :
    made.form.Fits parameters.names := by
  obtain ⟨base, hbase, h⟩ := bind_eq_ok.mp h
  have hbase := text_eq_ok.mp hbase
  split at h
  next => cases h
  next slice hslice =>
    obtain ⟨text, _, h⟩ := bind_eq_ok.mp h
    obtain ⟨selector, _, h⟩ := bind_eq_ok.mp h
    obtain ⟨_, hothers, h⟩ := bind_eq_ok.mp h
    cases h
    apply fits_of_used (refuseOthers_eq_ok.mp hothers)
    · simp [Rule.form, ParameterForm.names]
    · simp [Rule.form, hbase, hslice]

theorem fits_of_exprRule (h : exprRule schema parameters = .ok made) :
    made.form.Fits parameters.names := by
  obtain ⟨source, hsource, h⟩ := bind_eq_ok.mp h
  have hsource := text_eq_ok.mp hsource
  obtain ⟨formula, _, h⟩ := bind_eq_ok.mp h
  dsimp only at h
  split at h
  all_goals
    obtain ⟨operands, _, h⟩ := bind_eq_ok.mp h
    obtain ⟨_, hothers, h⟩ := bind_eq_ok.mp h
    split at h
    next =>
      cases h
      apply fits_of_used (refuseOthers_eq_ok.mp hothers)
      · simp [Rule.form, ParameterForm.names]
      · simp [Rule.form, hsource]
    next => cases h

theorem fits_of_customRule (h : customRule schema parameters = .ok made) :
    made.form.Fits parameters.names := by
  obtain ⟨_, hcheck, h⟩ := bind_eq_ok.mp h
  obtain ⟨name, hname, h⟩ := bind_eq_ok.mp h
  obtain ⟨base, _, h⟩ := bind_eq_ok.mp h
  obtain ⟨inner, _, h⟩ := bind_eq_ok.mp h
  obtain ⟨value, hvalue, _⟩ := Fields.required_eq_ok.mp (ofForm_eq_ok.mp hname)
  split at h
  next => cases h
  next =>
    cases h
    apply fits_of_used (Fields.names_of_check (ofForm_eq_ok.mp hcheck))
    · simp [Rule.form, ParameterForm.names, customRecord]
    · simp [Rule.form, hvalue]

theorem fits_of_offsetRule (h : offsetRule schema parameters = .ok made) :
    made.form.Fits parameters.names := by
  obtain ⟨_, hcheck, h⟩ := bind_eq_ok.mp h
  obtain ⟨base, hbase, h⟩ := bind_eq_ok.mp h
  obtain ⟨amount, hamount, h⟩ := bind_eq_ok.mp h
  obtain ⟨document, hdocument, _⟩ := Fields.required_eq_ok.mp (ofForm_eq_ok.mp hbase)
  obtain ⟨value, hvalue, _⟩ := Fields.required_eq_ok.mp (ofForm_eq_ok.mp hamount)
  dsimp only at h
  split at h
  next => cases h
  next =>
    cases h
    apply fits_of_used (Fields.names_of_check (ofForm_eq_ok.mp hcheck))
    · simp [Rule.form, ParameterForm.names, offsetRecord]
    · simp [Rule.form, hdocument, hvalue]

/-- The parameters that a rule is made from fit its form. -/
theorem fits_of_rule {kind : RuleKind} (h : rule schema kind parameters = .ok made) :
    made.form.Fits parameters.names := by
  cases kind with
  | value => exact fits_of_valueRule h
  | plugin => exact fits_of_pluginRule h
  | dim => exact fits_of_dimRule h
  | slice => exact fits_of_sliceRule h
  | expr => exact fits_of_exprRule h
  | custom => exact fits_of_customRule h
  | offset => exact fits_of_offsetRule h

/-- A declaration with all the parameters of another one of its kind, and with one that
the rule of the other is not made from, makes no entry. -/
theorem exists_fault_of_unused {d more : Declaration} {e : Entry} {name : String}
    (he : d.entry schema = .ok e) (hkind : more.kind = d.kind)
    (hmore : ∀ given ∈ d.parameters.names, given ∈ more.parameters.names)
    (hname : name ∈ more.parameters.names) (hunused : name ∉ e.rule.form.names) :
    ∃ fault, more.entry schema = .error fault := by
  obtain ⟨_, _, kind, hnamed, hrule⟩ := entry_eq_ok.mp he
  cases hentry : more.entry schema with
  | error fault => exact ⟨fault, rfl⟩
  | ok other =>
    obtain ⟨_, _, otherKind, hotherNamed, hotherRule⟩ := entry_eq_ok.mp hentry
    rw [hkind, hnamed] at hotherNamed
    obtain rfl : kind = otherKind := Option.some.inj hotherNamed
    have hfits := fits_of_rule hrule
    have hotherFits := fits_of_rule hotherRule
    have hsame : other.rule.form = e.rule.form := by
      apply Rule.form_eq_of_required
      · rw [kind_of_rule hrule, kind_of_rule hotherRule]
      · intro given hgiven
        exact hotherFits.known given (hmore given (hfits.required given hgiven))
    have hused := hotherFits.known name hname
    rw [hsame] at hused
    exact absurd hused hunused

/-! Documents of declarations -/

/-- A document is a declaration when it is an object whose key and kind are texts; its
other fields are the parameters. -/
theorem ofJson_eq_ok {document : Json} {d : Declaration} :
    ofJson document = .ok d ↔ ∃ fields : Fields, document = .object fields ∧
      (∀ field ∈ fields, field.1 = "key" ∨ field.1 = "type" → ∃ text, field.2 = .string text) ∧
      fields.get? "key" = some (.string d.key) ∧ fields.get? "type" = some (.string d.kind) ∧
      d.parameters = fields.filter fun (name, _) => name ≠ "key" ∧ name ≠ "type" := by
  obtain ⟨key, kind, parameters⟩ := d
  have hform : ∀ field : String × Json,
      (if field.1 = "key" ∨ field.1 = "type" then FormFault.checks Json.asString field.2
        else .ok ()) = .ok () ↔
      (field.1 = "key" ∨ field.1 = "type" → ∃ text, field.2 = .string text) := by
    intro field
    by_cases hname : field.1 = "key" ∨ field.1 = "type"
    · rw [if_pos hname, FormFault.checks, map_eq_ok]
      simp [hname, Json.asString_eq_ok]
    · simp [hname]
  constructor
  · intro h
    obtain ⟨fields, hfields, h⟩ := bind_eq_ok.mp h
    obtain ⟨_, hforms, h⟩ := bind_eq_ok.mp h
    obtain ⟨_, hkey, h⟩ := bind_eq_ok.mp h
    obtain ⟨_, hkind, h⟩ := bind_eq_ok.mp h
    cases h
    obtain ⟨value, hkey, hvalue⟩ := Fields.required_eq_ok.mp hkey
    obtain ⟨other, hkind, hother⟩ := Fields.required_eq_ok.mp hkind
    rw [Json.asString_eq_ok.mp hvalue] at hkey
    rw [Json.asString_eq_ok.mp hother] at hkind
    refine ⟨fields, Json.asFields_eq_ok.mp hfields, ?_, hkey, hkind, rfl⟩
    intro field hfield
    exact (hform field).mp (forM_eq_ok.mp hforms field hfield)
  · intro h
    obtain ⟨fields, rfl, hforms, hkey, hkind, rfl⟩ := h
    refine bind_eq_ok.mpr ⟨fields, rfl, bind_eq_ok.mpr ⟨(), ?_, ?_⟩⟩
    · exact forM_eq_ok.mpr fun field hfield => (hform field).mpr (hforms field hfield)
    · refine bind_eq_ok.mpr ⟨key, Fields.required_eq_ok.mpr ⟨_, hkey, rfl⟩, ?_⟩
      exact bind_eq_ok.mpr ⟨kind, Fields.required_eq_ok.mpr ⟨_, hkind, rfl⟩, rfl⟩

theorem mem_names_parameters {fields : Fields} {d : Declaration} {name : String}
    (h : ofJson (.object fields) = .ok d) :
    name ∈ d.parameters.names ↔ name ∈ fields.names ∧ name ≠ "key" ∧ name ≠ "type" := by
  obtain ⟨_, hfields, _, _, _, hparameters⟩ := ofJson_eq_ok.mp h
  cases hfields
  rw [hparameters]
  simp only [Fields.names, List.mem_map, List.mem_filter, decide_eq_true_eq]
  constructor
  · intro hname
    obtain ⟨field, ⟨hfield, hother⟩, rfl⟩ := hname
    exact ⟨⟨field, hfield, rfl⟩, hother⟩
  · intro hname
    obtain ⟨⟨field, hfield, rfl⟩, hother⟩ := hname
    exact ⟨field, ⟨hfield, hother⟩, rfl⟩

/-- One more field makes a declaration of the same key and kind. -/
theorem exists_ofJson_insert {fields : Fields} {d : Declaration} {name : String}
    (h : ofJson (.object fields) = .ok d) (hkey : name ≠ "key") (htype : name ≠ "type")
    (value : Json) :
    ∃ more, ofJson (.object (fields.insert name value)) = .ok more ∧
      more.key = d.key ∧ more.kind = d.kind := by
  obtain ⟨_, hfields, hforms, hownKey, hownKind, _⟩ := ofJson_eq_ok.mp h
  cases hfields
  refine ⟨⟨d.key, d.kind, _⟩, ofJson_eq_ok.mpr ⟨_, rfl, ?_, ?_, ?_, rfl⟩, rfl, rfl⟩
  · intro field hfield hname
    rcases Fields.mem_of_mem_insert hfield with rfl | hold
    · rcases hname with hname | hname
      · exact absurd hname hkey
      · exact absurd hname htype
    · exact hforms field hold hname
  · rw [Fields.get?_insert_of_ne value fields (Ne.symm hkey)]
    exact hownKey
  · rw [Fields.get?_insert_of_ne value fields (Ne.symm htype)]
    exact hownKind

/-- A field that the rule of a declaration is not made from spoils the declaration. -/
theorem exists_fault_of_insert {fields : Fields} {d : Declaration} {e : Entry} {name : String}
    (h : ofJson (.object fields) = .ok d) (he : d.entry schema = .ok e) (hkey : name ≠ "key")
    (htype : name ≠ "type") (hunused : name ∉ e.rule.form.names) (value : Json)
    (position : Nat) :
    ∃ fault, entryAt schema position (.object (fields.insert name value)) =
      .error (.declaration position d.key fault) := by
  obtain ⟨more, hmore, hmoreKey, hmoreKind⟩ := exists_ofJson_insert h hkey htype value
  have hall : ∀ given ∈ d.parameters.names, given ∈ more.parameters.names := by
    intro given hgiven
    obtain ⟨hfield, hother⟩ := (mem_names_parameters h).mp hgiven
    exact (mem_names_parameters hmore).mpr ⟨Fields.mem_names_insert.mpr (Or.inr hfield), hother⟩
  have hname : name ∈ more.parameters.names :=
    (mem_names_parameters hmore).mpr
      ⟨Fields.mem_names_insert.mpr (Or.inl rfl), hkey, htype⟩
  obtain ⟨fault, hfault⟩ := exists_fault_of_unused he hmoreKind hall hname hunused
  refine ⟨fault, ?_⟩
  unfold entryAt
  rw [hmore]
  dsimp only
  rw [hfault, hmoreKey]
  rfl

/-- The first document that declares nothing is reported. The induction is on the
documents in front of it. -/
theorem entriesFrom_set {position i : Nat} {documents : List Json} {entries : List Entry}
    {spoiled : Json} {fault : DocumentFault}
    (h : entriesFrom schema position documents = .ok entries) (hi : i < documents.length)
    (hfault : entryAt schema (position + i) spoiled = .error fault) :
    entriesFrom schema position (documents.set i spoiled) = .error fault := by
  induction documents generalizing position i entries with
  | nil => exact absurd hi (Nat.not_lt_zero i)
  | cons document rest ih =>
    obtain ⟨e, he, h⟩ := bind_eq_ok.mp h
    obtain ⟨others, hothers, _⟩ := bind_eq_ok.mp h
    cases i with
    | zero => exact bind_eq_error.mpr (Or.inl hfault)
    | succ i =>
      have hnext : position + 1 + i = position + (i + 1) := by omega
      have hrest := ih hothers (Nat.lt_of_succ_lt_succ hi) (hnext ▸ hfault)
      exact bind_eq_error.mpr (Or.inr ⟨e, he, bind_eq_error.mpr (Or.inl hrest)⟩)

end Declaration

namespace Facility

variable {schema : String} {documents : List Json} {entries : List Entry}

theorem loadFile_eq_error {host : Host} {registry : Registry} {path : FilePath}
    {document : Json} {fault : DocumentFault} (hread : readDocument host path = .ok document)
    (hfault : Entry.ofDocument schema document = .error fault) :
    loadFile host schema registry path = .error ⟨.document fault, some path⟩ := by
  refine bind_eq_error.mpr (Or.inr ⟨document, hread, bind_eq_error.mpr (Or.inl ?_)⟩)
  exact mapError_eq_error.mpr ⟨fault, hfault, rfl⟩

/-- Every field of a declaration that makes an entry is its key, its kind or a parameter
of the form of its rule, and all that this form requires is there. With any other field
put to it the declaration makes no entry, and a load that reads it fails. -/
theorem fields_of_ofDocument (h : Entry.ofDocument schema (.array documents) = .ok entries)
    {i : Nat} {e : Entry} (he : entries[i]? = some e) :
    ∃ (fields : Fields) (key : String), documents[i]? = some (.object fields) ∧
      fields.get? "key" = some (.string key) ∧
      (∀ name ∈ fields.names, name = "key" ∨ name = "type" ∨ name ∈ e.rule.form.names) ∧
      (∀ name ∈ e.rule.form.required, name ∈ fields.names) ∧
      ∀ (name : String) (value : Json), name ≠ "key" → name ≠ "type" →
        name ∉ e.rule.form.names →
          ∃ fault, Entry.ofDocument schema
                (.array (documents.set i (.object (fields.insert name value)))) =
              .error (.declaration i key fault) ∧
            ∀ (host : Host) (registry : Registry) (path : FilePath),
              readDocument host path =
                  .ok (.array (documents.set i (.object (fields.insert name value)))) →
                loadFile host schema registry path =
                  .error ⟨.document (.declaration i key fault), some path⟩ := by
  obtain ⟨_, hdocuments, hdeclares⟩ := Entry.ofDocument_eq_ok.mp h
  cases hdocuments
  obtain ⟨document, hdocument, d, hread, hentry⟩ := getElem?_of_forall₂ hdeclares.flip he
  obtain ⟨fields, rfl, _, hkey, _, _⟩ := Declaration.ofJson_eq_ok.mp hread
  obtain ⟨_, _, kind, _, hrule⟩ := Declaration.entry_eq_ok.mp hentry
  have hfits := Declaration.fits_of_rule hrule
  refine ⟨fields, d.key, hdocument, hkey, ?_, ?_, ?_⟩
  · intro name hname
    by_cases hown : name = "key" ∨ name = "type"
    · exact hown.imp_right Or.inl
    · obtain ⟨hnotKey, hnotType⟩ := not_or.mp hown
      have hgiven := (Declaration.mem_names_parameters hread).mpr ⟨hname, hnotKey, hnotType⟩
      exact Or.inr (Or.inr (hfits.known name hgiven))
  · intro name hname
    exact ((Declaration.mem_names_parameters hread).mp (hfits.required name hname)).1
  · intro name value hnotKey hnotType hunused
    obtain ⟨fault, hfault⟩ :=
      Declaration.exists_fault_of_insert hread hentry hnotKey hnotType hunused value i
    have hlength : i < documents.length := (List.getElem?_eq_some_iff.mp hdocument).1
    have hspoiled : Entry.ofDocument schema
        (.array (documents.set i (.object (fields.insert name value)))) =
          .error (.declaration i d.key fault) := by
      apply Declaration.entriesFrom_set h hlength
      rw [Nat.zero_add]
      exact hfault
    refine ⟨fault, hspoiled, ?_⟩
    intro host registry path hpath
    exact loadFile_eq_error hpath hspoiled

def sizeFields : Fields :=
  [("key", .string "m/n"), ("probe", .string "k"), ("type", .string "dim")]

def globalAndSize : List Json :=
  [.object [("dtype", .string "int"), ("global", .string "g"), ("key", .string "k"),
    ("type", .string "VALUE")], .object sizeFields]

/-- A size is not counted: a count is the parameter of another form of its kind. -/
theorem fields_of_ofDocument_size :
    Entry.ofDocument "m" (.array globalAndSize) =
        .ok [⟨"k", .value (.global "g") (some .int)⟩, ⟨"n", .dim (.probe "k") none⟩] ∧
      (∀ name ∈ sizeFields.names, name = "key" ∨ name = "type" ∨ name ∈ ["probe", "dtype"]) ∧
      "count" ∉ ["probe", "dtype"] ∧
      ∃ fault, Entry.ofDocument "m" (.array
          (globalAndSize.set 1 (.object (sizeFields.insert "count" (.number (.unsigned 2)))))) =
        .error (.declaration 1 "m/n" fault) := by
  have hentries : Entry.ofDocument "m" (.array globalAndSize) =
      .ok [⟨"k", .value (.global "g") (some .int)⟩, ⟨"n", .dim (.probe "k") none⟩] := by
    rfl
  have hother : "count" ∉ ["probe", "dtype"] := by decide
  obtain ⟨fields, key, hfields, hkey, hnames, _, hadded⟩ :=
    fields_of_ofDocument hentries (i := 1) rfl
  cases hfields
  cases hkey
  obtain ⟨fault, hfault, _⟩ :=
    hadded "count" (.number (.unsigned 2)) (by decide) (by decide) hother
  exact ⟨hentries, hnames, hother, fault, hfault⟩

end Facility

end SignalMap
