import SignalMap.Proofs.Globals.Descent
import SignalMap.Proofs.Template.Failures
import SignalMap.Proofs.Template.Scopes
import SignalMap.Resolution.Chain

/-!
Fields of a request in front of the globals. A signal that a PLUGIN rule asks for has the
rendered arguments and the fields of the request. A template that begins with the name of
a field sees this field and nothing else, also when the request leaves it out; a global of
the same name is never seen. So such signals do not depend on globals with names of
fields, and neither do the faults of their templates.
-/

namespace SignalMap

theorem Json.ofInt_ne_null (n : Int) : ofInt n ≠ .null := by
  unfold ofInt
  split
  · exact nofun
  · exact nofun

namespace Context

open Template

variable {c : Context} {globals other scope : Fields} {name : String} {value : Json}

def requestNames : List String :=
  ["facility", "schema", "path", "key", "indices", "signal_type", "dd_version", "experiment",
    "shot", "run"]

/-- What a request says under each of its names. What it leaves out is null. -/
inductive Says (c : Context) : String → Json → Prop where
  | facility : Says c "facility" (.string c.facility)
  | schema : Says c "schema" (.string c.schema)
  | path : Says c "path" (.string c.requestPath)
  | key : Says c "key" (.string c.key)
  | indices : Says c "indices" (.array (c.indices.map .ofNat))
  | signal : Says c "signal_type" (.string c.signal.name)
  | version : Says c "dd_version" (.string c.version)
  | experiment {text : String} (h : c.experiment = some text) : Says c "experiment" (.string text)
  | noExperiment (h : c.experiment = none) : Says c "experiment" .null
  | shot {n : Int} (h : c.shot = some n) : Says c "shot" (.ofInt n)
  | noShot (h : c.shot = none) : Says c "shot" .null
  | run {n : Int} (h : c.run = some n) : Says c "run" (.ofInt n)
  | noRun (h : c.run = none) : Says c "run" .null

theorem mem_requestFields_iff : (name, value) ∈ c.requestFields ↔ c.Says name value := by
  constructor
  · intro h
    simp only [requestFields, List.mem_cons, Prod.mk.injEq, List.not_mem_nil, or_false] at h
    rcases h with ⟨rfl, rfl⟩ | ⟨rfl, rfl⟩ | ⟨rfl, rfl⟩ | ⟨rfl, rfl⟩ | ⟨rfl, rfl⟩ | ⟨rfl, rfl⟩ |
      ⟨rfl, rfl⟩ | ⟨rfl, rfl⟩ | ⟨rfl, rfl⟩ | ⟨rfl, rfl⟩
    · exact .facility
    · exact .schema
    · exact .path
    · exact .key
    · exact .indices
    · exact .signal
    · exact .version
    · cases h : c.experiment with
      | none => exact .noExperiment h
      | some text => exact .experiment h
    · cases h : c.shot with
      | none => exact .noShot h
      | some n => exact .shot h
    · cases h : c.run with
      | none => exact .noRun h
      | some n => exact .run h
  · intro h
    cases h <;> simp [requestFields, Json.ofOption, *]

theorem names_requestFields (c : Context) : Fields.names c.requestFields = requestNames := rfl

theorem nodup_requestFields (c : Context) : (Fields.names c.requestFields).Nodup := by
  rw [names_requestFields]
  decide

theorem get?_requestFields_iff :
    Fields.get? c.requestFields name = some value ↔ c.Says name value := by
  rw [← mem_requestFields_iff]
  exact ⟨Fields.mem_of_get?, Fields.get?_of_mem c.nodup_requestFields⟩

theorem exists_says_iff : (∃ value, c.Says name value) ↔ name ∈ requestNames := by
  rw [← c.names_requestFields, Fields.mem_names_iff]
  simp only [get?_requestFields_iff]

theorem says_null_iff :
    c.Says name .null ↔
      name = "experiment" ∧ c.experiment = none ∨ name = "shot" ∧ c.shot = none ∨
        name = "run" ∧ c.run = none := by
  constructor
  · intro h
    -- `ofInt` is no constructor, so the cases alone cannot tell it from null.
    generalize hnull : Json.null = value at h
    cases h with
    | noExperiment h => exact Or.inl ⟨rfl, h⟩
    | noShot h => exact Or.inr (Or.inl ⟨rfl, h⟩)
    | noRun h => exact Or.inr (Or.inr ⟨rfl, h⟩)
    | shot _ => exact absurd hnull.symm (Json.ofInt_ne_null _)
    | run _ => exact absurd hnull.symm (Json.ofInt_ne_null _)
    | _ => cases hnull
  · rintro (⟨rfl, h⟩ | ⟨rfl, h⟩ | ⟨rfl, h⟩)
    · exact .noExperiment h
    · exact .noShot h
    · exact .noRun h

/-- The globals differ at most under names of request fields. -/
def AgreeBeside (globals other : Fields) : Prop :=
  ∀ name, name ∉ requestNames → Fields.get? globals name = Fields.get? other name

theorem get?_templateScope (c : Context) (globals : Fields) (name : String) :
    Fields.get? (c.templateScope globals) name =
      (Fields.get? c.requestFields name).or (Fields.get? globals name) :=
  Fields.get?_foldl_insert c.nodup_requestFields globals name

/-- The value that a scope gives a path is that of the request field that the path
begins with, alone, and it is that of the globals where it begins with no such field. -/
def Shadows (c : Context) (globals scope : Fields) (path : List Char) : Prop :=
  (∀ name value, c.Says name value → Globals.firstName? (String.ofList path) = some name →
    lookup scope path = lookup [(name, value)] path) ∧
  ((∀ name ∈ requestNames, Globals.firstName? (String.ofList path) ≠ some name) →
    lookup scope path = lookup globals path)

/-- A path begins with one field of the request or with none. -/
theorem Shadows.lookup_eq {path : List Char} (h : c.Shadows globals scope path)
    (hother : c.Shadows globals other path) : lookup scope path = lookup other path := by
  by_cases hfield : ∃ name ∈ requestNames, Globals.firstName? (String.ofList path) = some name
  · obtain ⟨name, hname, hfirst⟩ := hfield
    obtain ⟨value, hsays⟩ := exists_says_iff.mpr hname
    rw [h.1 name value hsays hfirst, hother.1 name value hsays hfirst]
  · have hnone : ∀ name ∈ requestNames, Globals.firstName? (String.ofList path) ≠ some name :=
      fun name hname hfirst => hfield ⟨name, hname, hfirst⟩
    rw [h.2 hnone, hother.2 hnone]

theorem shadows_templateScope (c : Context) (globals : Fields) (path : List Char) :
    c.Shadows globals (c.templateScope globals) path := by
  constructor
  · intro own value hsays hfirst
    apply lookup_congr
    intro name hname
    rw [hfirst] at hname
    cases hname
    have hself : Fields.get? [(own, value)] own = some value := if_pos rfl
    rw [get?_templateScope, get?_requestFields_iff.mpr hsays, hself]
    rfl
  · intro hnone
    apply lookup_congr
    intro name hname
    have hmissing : Fields.get? c.requestFields name = none := by
      apply Fields.get?_eq_none_iff.mpr
      intro hmem
      exact hnone name hmem hname
    rw [get?_templateScope, hmissing]
    rfl

theorem lookup_templateScope_congr (h : AgreeBeside globals other) (path : List Char) :
    lookup (c.templateScope globals) path = lookup (c.templateScope other) path := by
  apply lookup_congr
  intro name _
  rw [get?_templateScope, get?_templateScope]
  by_cases hname : name ∈ requestNames
  · obtain ⟨value, hsays⟩ := exists_says_iff.mpr hname
    rw [get?_requestFields_iff.mpr hsays]
    rfl
  · rw [h name hname]

/-- Each name is a path, of one segment without indices. -/
theorem lookup_single (hname : name ∈ requestNames) :
    Globals.firstName? (String.ofList name.toList) = some name ∧
      ∀ value, lookup [(name, value)] name.toList = .ok value := by
  revert name
  simp only [requestNames, List.forall_mem_cons]
  exact ⟨⟨rfl, fun _ => rfl⟩, ⟨rfl, fun _ => rfl⟩, ⟨rfl, fun _ => rfl⟩, ⟨rfl, fun _ => rfl⟩,
    ⟨rfl, fun _ => rfl⟩, ⟨rfl, fun _ => rfl⟩, ⟨rfl, fun _ => rfl⟩, ⟨rfl, fun _ => rfl⟩,
    ⟨rfl, fun _ => rfl⟩, ⟨rfl, fun _ => rfl⟩, nofun⟩

/-- The name of a field alone is what the request says under it. -/
theorem lookup_field (globals : Fields) (h : c.Says name value) :
    lookup (c.templateScope globals) name.toList = .ok value := by
  obtain ⟨hfirst, hvalue⟩ := lookup_single (exists_says_iff.mp ⟨value, h⟩)
  exact ((c.shadows_templateScope globals _).1 name value h hfirst).trans (hvalue value)

theorem lookup_eq_null_iff (globals : Fields) (hname : name ∈ requestNames) :
    lookup (c.templateScope globals) name.toList = .ok .null ↔
      name = "experiment" ∧ c.experiment = none ∨ name = "shot" ∧ c.shot = none ∨
        name = "run" ∧ c.run = none := by
  rw [← says_null_iff]
  constructor
  · intro h
    obtain ⟨value, hsays⟩ := exists_says_iff.mpr hname
    rw [lookup_field globals hsays] at h
    cases h
    exact hsays
  · intro h
    exact lookup_field globals h

end Context

namespace Rule

open Context

variable {c : Context} {globals other args : Fields} {key plugin : String}
  {function : Option String}

/-- The signal of a rule, once its arguments are rendered. -/
theorem fetchRequest_eq_ok {request : FetchRequest} :
    fetchRequest c globals key plugin function args = .ok request ↔
      ∃ rendered, Template.renderFields (c.templateScope globals) args = .ok rendered ∧
        request = { plugin, function, args := rendered, facility := c.facility, key,
                    indices := c.indices, signal := c.signal, shot := c.shot, run := c.run } := by
  unfold fetchRequest
  rw [bind_eq_ok]
  constructor
  · rintro ⟨rendered, hrendered, h⟩
    cases h
    exact ⟨rendered, hrendered, rfl⟩
  · rintro ⟨rendered, hrendered, rfl⟩
    exact ⟨rendered, hrendered, rfl⟩

theorem fetchRequest_eq_error {fault : TemplateFault} :
    fetchRequest c globals key plugin function args = .error fault ↔
      Template.renderFields (c.templateScope globals) args = .error fault := by
  unfold fetchRequest
  rw [bind_eq_error]
  constructor
  · rintro (h | ⟨_, _, h⟩)
    · exact h
    · cases h
  · exact Or.inl

/-- The arguments are all that a signal takes from the globals. -/
theorem fetchRequest_congr (h : AgreeBeside globals other) (key plugin : String)
    (function : Option String) (args : Fields) :
    fetchRequest c globals key plugin function args =
      fetchRequest c other key plugin function args := by
  unfold fetchRequest
  rw [Template.renderFields_congr fun path _ => lookup_templateScope_congr h path]

end Rule

namespace Resolver

open Context Template

variable {r : Resolver} {c : Context} {globals other : Fields} {registry registered : Registry}
  {e : Entry} {plugin : String} {function : Option String} {args : Fields}

/-- Globals with the names of request fields have no effect on a PLUGIN rule. -/
theorem visit_plugin_congr (hrule : e.rule = .plugin plugin function args)
    (h : AgreeBeside globals other) (budget : Nat) (chain : List String) :
    r.visit ⟨c, registry, globals⟩ budget chain e =
      r.visit ⟨c, registered, other⟩ budget chain e := by
  cases budget with
  | zero => rfl
  | succ budget =>
    unfold visit
    rw [hrule]
    unfold Rule.compute
    dsimp only
    rw [Rule.fetchRequest_congr h]

/-- A PLUGIN rule renders its arguments, and only then is the fetcher asked. -/
theorem visit_plugin {budget : Nat} {chain : List String}
    (hrule : e.rule = .plugin plugin function args) (hchain : e.key ∉ chain) :
    r.visit ⟨c, registry, globals⟩ (budget + 1) chain e =
      match Rule.fetchRequest c globals e.key plugin function args with
      | .ok request => Rule.fetch r.fetcher e.key request
      | .error fault => .fail e.key (.template fault) := by
  unfold visit
  rw [if_neg hchain, hrule]
  rfl

/-- Globals never hide a field of the request. Where two documents of globals differ in
names of such fields only, a PLUGIN rule asks for the same signal or fails with the same
error. What it asks for has the fields of the request and the rendered arguments, and the
fetcher is asked for this signal alone and answers for the rule. Arguments that cannot be
rendered are the fault of the rule. At the place of every text in the arguments stands
what is made of the templates of this text, and a template that begins with a field sees
what the request says there alone. This is null exactly for an experiment, a shot or a run
that is left out. -/
theorem request_fields_shadow_globals (c : Context) :
    (∀ globals other : Fields, AgreeBeside globals other →
      ∀ (r : Resolver) (registry registered : Registry) (e : Entry) (plugin : String)
        (function : Option String) (args : Fields), e.rule = .plugin plugin function args →
          Rule.fetchRequest c globals e.key plugin function args =
            Rule.fetchRequest c other e.key plugin function args ∧
          ∀ budget chain, r.visit ⟨c, registry, globals⟩ budget chain e =
            r.visit ⟨c, registered, other⟩ budget chain e) ∧
    (∀ (globals : Fields) (e : Entry) (plugin : String) (function : Option String)
        (args : Fields), e.rule = .plugin plugin function args →
      (∀ request, Rule.fetchRequest c globals e.key plugin function args = .ok request ↔
        ∃ rendered, renderFields (c.templateScope globals) args = .ok rendered ∧
          request = { plugin, function, args := rendered, facility := c.facility, key := e.key,
                      indices := c.indices, signal := c.signal, shot := c.shot,
                      run := c.run }) ∧
      (∀ fault, Rule.fetchRequest c globals e.key plugin function args = .error fault ↔
        renderFields (c.templateScope globals) args = .error fault) ∧
      ∀ (r : Resolver) (registry : Registry) (budget : Nat) (chain : List String),
        e.key ∉ chain →
          (∀ request, Rule.fetchRequest c globals e.key plugin function args = .ok request →
            r.visit ⟨c, registry, globals⟩ (budget + 1) chain e =
              ⟨[request], (r.fetcher request).mapError fun failure =>
                ⟨e.key, .fetchFailed request.plugin failure⟩⟩) ∧
          ∀ fault, Rule.fetchRequest c globals e.key plugin function args = .error fault →
            r.visit ⟨c, registry, globals⟩ (budget + 1) chain e =
              .fail e.key (.template fault)) ∧
    (∀ globals args : Fields,
      (∀ path, c.Shadows globals (c.templateScope globals) path) ∧
      (∀ rendered, renderFields (c.templateScope globals) args = .ok rendered →
        ∀ steps text, Globals.Reaches (.object args) steps (.string text) →
          ∃ value, Globals.Reaches (.object rendered) steps value ∧
            Makes (c.templateScope globals) text value) ∧
      (Globals.IsOrdered (.object args) →
        ((∃ rendered, renderFields (c.templateScope globals) args = .ok rendered) ↔
          ∀ steps text, Globals.Reaches (.object args) steps (.string text) →
            ∃ value, Makes (c.templateScope globals) text value)) ∧
      ∀ scope, (∀ path ∈ fieldPaths args, c.Shadows globals scope path) →
        renderFields scope args = renderFields (c.templateScope globals) args) ∧
    ∀ globals : Fields,
      (∀ name value, c.Says name value →
        lookup (c.templateScope globals) name.toList = .ok value) ∧
      ∀ name ∈ requestNames, (lookup (c.templateScope globals) name.toList = .ok .null ↔
        name = "experiment" ∧ c.experiment = none ∨ name = "shot" ∧ c.shot = none ∨
          name = "run" ∧ c.run = none) := by
  refine ⟨?_, ?_, ?_, ?_⟩
  · intro globals other h r registry registered e plugin function args hrule
    exact ⟨Rule.fetchRequest_congr h e.key plugin function args, visit_plugin_congr hrule h⟩
  · intro globals e plugin function args hrule
    refine ⟨fun _ => Rule.fetchRequest_eq_ok, fun _ => Rule.fetchRequest_eq_error, ?_⟩
    intro r registry budget chain hchain
    constructor
    · intro request hrequest
      rw [visit_plugin hrule hchain, hrequest]
      rfl
    · intro fault hfault
      rw [visit_plugin hrule hchain, hfault]
  · intro globals args
    refine ⟨c.shadows_templateScope globals, ?_, exists_renderFields_iff, ?_⟩
    · intro rendered hrendered steps text htext
      exact makes_of_renderFields hrendered htext
    · intro scope hscope
      apply renderFields_congr
      intro path hpath
      exact (hscope path hpath).lookup_eq (c.shadows_templateScope globals path)
  · intro globals
    exact ⟨fun _ _ => lookup_field globals, fun _ => lookup_eq_null_iff globals⟩

def pulse : Context :=
  ⟨"F", "m", "k", "m/k/3", [3], .default, "1", none, none, some 7⟩

def pulseArgs : Fields :=
  [("coil", .string "\x7b\x7b indices[0] \x7d\x7d"), ("pulse", .string "\x7b\x7b shot \x7d\x7d"),
    ("signal", .string "\x7b\x7b prefix \x7d\x7d")]

theorem isOrdered_pulseArgs : Globals.IsOrdered (.object pulseArgs) := by
  apply Globals.isOrdered_object (by decide)
  have hstring (text : String) : Globals.IsOrdered (.string text) :=
    Globals.isOrdered_of_leads nofun nofun
  simp only [pulseArgs, List.forall_mem_cons]
  exact ⟨hstring _, hstring _, hstring _, nofun⟩

def pulseEntry : Entry :=
  ⟨"k", .plugin "UDA" none pulseArgs⟩

/-- A rule that asks with an index of the request, with its shot, which is left out, and with
a global. Another global with the name of the field changes nothing. -/
theorem request_fields_shadow_globals_pulse :
    standard.resolve ⟨pulse, .empty, [("prefix", .string "A"), ("shot", .string "B")]⟩ pulseEntry =
        standard.resolve ⟨pulse, .empty, [("prefix", .string "A")]⟩ pulseEntry ∧
      standard.resolve ⟨pulse, .empty, [("prefix", .string "A")]⟩ pulseEntry =
        ⟨[⟨"UDA", none, [("coil", .ofNat 3), ("pulse", .null), ("signal", .string "A")], "F", "k",
          [3], .default, none, some 7⟩], .ok .empty⟩ ∧
      (∀ steps text, Globals.Reaches (.object pulseArgs) steps (.string text) →
        ∃ value, Makes (pulse.templateScope [("prefix", .string "A")]) text value) ∧
      lookup (pulse.templateScope [("indices", .string "B")]) "indices[0]".toList =
        .ok (.ofNat 3) := by
  obtain ⟨hsame, hasks, hrendered, _⟩ := request_fields_shadow_globals pulse
  have hrender : renderFields (pulse.templateScope [("prefix", .string "A")]) pulseArgs =
      .ok [("coil", .ofNat 3), ("pulse", .null), ("signal", .string "A")] := by
    rfl
  refine ⟨?_, ?_, ?_, ?_⟩
  · have hagree :
        AgreeBeside [("prefix", .string "A"), ("shot", .string "B")] [("prefix", .string "A")] := by
      intro name hname
      have hshot : name ≠ "shot" := by
        intro heq
        exact hname (heq ▸ by decide)
      simp [Fields.get?, hshot]
    exact (hsame _ _ hagree standard .empty .empty pulseEntry _ _ _ rfl).2 standard.maxDepth []
  · obtain ⟨hok, _, hvisit⟩ := hasks [("prefix", .string "A")] pulseEntry "UDA" none _ rfl
    exact (hvisit standard .empty 31 [] (by decide)).1 _ ((hok _).mpr ⟨_, hrender, rfl⟩)
  · obtain ⟨_, _, hexists, _⟩ := hrendered [("prefix", .string "A")] pulseArgs
    exact (hexists isOrdered_pulseArgs).mp ⟨_, hrender⟩
  · obtain ⟨hshadows, _, _⟩ := hrendered [("indices", .string "B")] []
    exact (hshadows "indices[0]".toList).1 _ _ .indices rfl

end Resolver

end SignalMap
