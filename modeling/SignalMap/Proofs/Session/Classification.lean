import SignalMap.Proofs.Catalog.Readiness
import SignalMap.Proofs.Catalog.Retention
import SignalMap.Proofs.Lookup.Parts
import SignalMap.Proofs.Resolution.Diagnosis
import SignalMap.Proofs.Session.Rejection

/-!
The kind of an error says which stage failed. A request goes through four stages: it
has to be usable, its facility has to be there, an entry has to be found in it, and
the entry has to resolve. An error comes from the first stage that fails, and an error
of the last one names an entry that is reached from the entry that was found.
-/

namespace SignalMap

def Request.IsInvalid (request : Request) : Prop :=
  (∃ fault, request.normalize = .error fault) ∨
    ∃ fault, Catalog.checkName request.facility = .error fault

theorem Request.not_isInvalid_iff {request : Request} :
    ¬ request.IsInvalid ↔
      (∃ n, request.normalize = .ok n) ∧ Catalog.checkName request.facility = .ok () := by
  unfold IsInvalid
  cases request.normalize <;> cases Catalog.checkName request.facility <;> simp

def Facility.Unmapped (f : Facility) (n : NormalizedPath) : Prop :=
  f.schema? n.schema = none ∨
    ∃ mappings, f.schema? n.schema = some mappings ∧
      (mappings.registry.entries = [] ∨
        mappings.registry.get? n.key = none ∧
          ∀ k signal, NormalizedPath.IsPart n.key k signal → mappings.registry.get? k = none)

namespace Session

variable {host : Host} {request : Request} {s : Session} {n : NormalizedPath} {f : Facility}

def Reachable (s : Session) : Prop :=
  ∃ config resolver history, s = (start config resolver).run history

def turned (s : Session) (request : Request) : Catalog :=
  s.catalog.switchVersion request.version

def IsUnconfigured (s : Session) (host : Host) (request : Request) : Prop :=
  (s.turned request).CannotInit host ∨ (s.turned request).LoadFails host request.facility

theorem Reachable.rooted (h : s.Reachable) : s.catalog.Rooted := by
  obtain ⟨config, resolver, history, rfl⟩ := h
  rw [catalog_run]
  exact (Catalog.Rooted.ofConfig config).run _

theorem invalid_iff :
    (∃ fault, (s.resolve host request).2.result = .error (.invalidRequest fault)) ↔
      request.IsInvalid := by
  simp only [rejected_iff]
  constructor
  · rintro ⟨fault, hpath | ⟨_, hname⟩⟩
    · exact Or.inl ⟨fault, hpath⟩
    · exact Or.inr ⟨fault, hname⟩
  · rintro (⟨fault, hpath⟩ | ⟨fault, hname⟩)
    · exact ⟨fault, Or.inl hpath⟩
    · cases hpath : request.normalize with
      | error other => exact ⟨other, Or.inl rfl⟩
      | ok n => exact ⟨fault, Or.inr ⟨⟨n, rfl⟩, hname⟩⟩

/-- Nothing is mapped exactly when the schema cannot be selected or no entry is found
in it. -/
theorem unmapped_iff (name path : String) (hsignal : n.signal = .default) :
    f.Unmapped n ↔ (∃ fault, f.select name n.schema = .error fault) ∨
      ∃ mappings fault, f.select name n.schema = .ok mappings ∧
        findEntry mappings.registry n path = .error fault := by
  unfold Facility.Unmapped
  cases hselect : f.select name n.schema with
  | error fault =>
    refine ⟨fun _ => Or.inl ⟨fault, rfl⟩, fun _ => ?_⟩
    cases hschema : f.schema? n.schema with
    | none => exact Or.inl rfl
    | some mappings =>
      refine Or.inr ⟨mappings, rfl, Or.inl ?_⟩
      by_contra hne
      rw [Facility.select_eq_ok_iff.mpr ⟨hschema, hne⟩] at hselect
      cases hselect
  | ok mappings =>
    obtain ⟨hschema, hne⟩ := Facility.select_eq_ok_iff.mp hselect
    have hmissing : (∃ fault, findEntry mappings.registry n path = .error fault) ↔ _ :=
      exists_findEntry_eq_error_iff hsignal
    simp [hschema, hne, ← hmissing]

/-- A facility that is there: nothing is mapped in it and the lookup fails, or an entry
is found and the reply is what the entry gives. -/
theorem resolve_of_supplied (hpath : request.normalize = .ok n)
    (hfound : ((s.turned request).mappings host request.facility n.schema).2 =
      (f.select request.facility n.schema).mapError .lookup) :
    f.Unmapped n ∧ (∃ fault, (s.resolve host request).2.result = .error (.lookup fault)) ∨
      ¬ f.Unmapped n ∧ ∃ mappings e q, f.schema? n.schema = some mappings ∧
        findEntry mappings.registry n request.path = .ok (e, q) ∧
        (s.resolve host request).2.result =
          (s.resolver.resolve ⟨.ofRequest request q (s.turned request).config.version,
            mappings.registry, mappings.globals⟩ e).result.mapError .transform := by
  have hsignal := Request.signal_of_normalize hpath
  rw [unmapped_iff request.facility request.path hsignal, resolve_of_normalized hpath]
  unfold turned at hfound ⊢
  rw [Catalog.config_switchVersion]
  dsimp only
  rw [hfound]
  cases hselect : f.select request.facility n.schema with
  | error fault => exact Or.inl ⟨Or.inl ⟨fault, rfl⟩, fault, rfl⟩
  | ok mappings =>
    obtain ⟨hschema, _⟩ := Facility.select_eq_ok_iff.mp hselect
    cases hentry : findEntry mappings.registry n request.path with
    | error fault =>
      exact Or.inl ⟨Or.inr ⟨mappings, fault, rfl, hentry⟩, fault, reply_lookup_iff.mpr hentry⟩
    | ok found =>
      obtain ⟨e, q⟩ := found
      refine Or.inr ⟨by simp [hentry], mappings, e, q, hschema, hentry, ?_⟩
      exact congrArg Reply.result (reply_of_findEntry hentry)

/-- What becomes of a request that is not invalid: there is no facility for it, or
nothing is mapped in the facility, or an entry is found and the reply is what the entry
gives. -/
theorem resolve_cases (hrooted : s.catalog.Rooted) (hpath : request.normalize = .ok n)
    (hname : Catalog.checkName request.facility = .ok ()) :
    s.IsUnconfigured host request ∧
        (∃ e, (s.resolve host request).2.result = .error (.configuration e)) ∨
      ¬ s.IsUnconfigured host request ∧ ∃ f,
        (s.turned request).supply host request.facility = .ok f ∧
        (s.resolve host request).1.catalog.facility? request.facility = some f ∧
        (f.Unmapped n ∧ (∃ fault, (s.resolve host request).2.result = .error (.lookup fault)) ∨
          ¬ f.Unmapped n ∧ ∃ mappings e q, f.schema? n.schema = some mappings ∧
            findEntry mappings.registry n request.path = .ok (e, q) ∧
            (s.resolve host request).2.result =
              (s.resolver.resolve ⟨.ofRequest request q (s.turned request).config.version,
                mappings.registry, mappings.globals⟩ e).result.mapError .transform) := by
  have hturned : (s.turned request).Rooted := hrooted.switchVersion request.version
  rcases Catalog.mappings_cases hturned hname n.schema with
    ⟨hreason, e, hfound⟩ | ⟨hnone, f, hsupply, hkept, hfound⟩
  · refine Or.inl ⟨hreason, e, ?_⟩
    unfold turned at hfound
    rw [resolve_of_normalized hpath]
    dsimp only
    rw [hfound]
    rfl
  · refine Or.inr ⟨hnone, f, hsupply, ?_, resolve_of_supplied hpath hfound⟩
    rw [resolve_of_normalized hpath]
    exact hkept

/-- A request that is not invalid fails by the configuration exactly when there is no
facility for it. -/
theorem configuration_iff (hrooted : s.catalog.Rooted) (hvalid : ¬ request.IsInvalid) :
    (∃ e, (s.resolve host request).2.result = .error (.configuration e)) ↔
      s.IsUnconfigured host request := by
  obtain ⟨⟨n, hpath⟩, hname⟩ := Request.not_isInvalid_iff.mp hvalid
  rcases resolve_cases hrooted hpath hname with
    ⟨hreason, hresult⟩ | ⟨hnone, f, _, _, ⟨_, fault, hlookup⟩ | ⟨_, _, _, _, _, _, hreply⟩⟩
  · exact ⟨fun _ => hreason, fun _ => hresult⟩
  · refine ⟨?_, fun hreason => absurd hreason hnone⟩
    rintro ⟨e, hresult⟩
    rw [hlookup] at hresult
    cases hresult
  · refine ⟨?_, fun hreason => absurd hreason hnone⟩
    rintro ⟨e, hresult⟩
    rw [hreply] at hresult
    obtain ⟨_, _, hkind⟩ := mapError_eq_error.mp hresult
    cases hkind

/-- A facility that is kept is forgotten only when the session turns to another
version. -/
theorem facility?_resolve {name : String} (h : s.catalog.facility? name = some f)
    (hversion : ∀ version, request.version = some version → version = s.catalog.config.version) :
    (s.resolve host request).1.catalog.facility? name = some f := by
  have hsame : s.catalog.switchVersion request.version = s.catalog := by
    refine Catalog.switchVersion_eq_self_iff.mpr ?_
    cases hnamed : request.version with
    | none => rfl
    | some version => exact hversion version hnamed
  cases hpath : request.normalize with
  | error fault =>
    rw [resolve_of_refused hpath]
    exact h
  | ok n =>
    rw [resolve_of_normalized hpath, hsame]
    have hreset : Catalog.Action.mappings request.facility n.schema ≠ .reset := by
      intro hreset
      cases hreset
    exact Catalog.facility?_act h hreset

/-- Every error comes from the first stage that fails. The request is invalid, or else
the facility is not there, or else nothing is mapped, or else the error is that of the
resolution, and it names an entry that the entry that was found reaches, whatever the
fetcher and the hooks do. With an error or without one, a request that keeps to the
current version leaves every facility that is kept as it is. -/
theorem resolve_classifies (host : Host) (request : Request) (s : Session) (h : s.Reachable) :
    ((∃ fault, (s.resolve host request).2.result = .error (.invalidRequest fault)) ↔
      request.IsInvalid) ∧
    (¬ request.IsInvalid →
      ((∃ e, (s.resolve host request).2.result = .error (.configuration e)) ↔
        s.IsUnconfigured host request)) ∧
    (¬ request.IsInvalid → ¬ s.IsUnconfigured host request →
      ∃ n f, request.normalize = .ok n ∧
        (s.turned request).supply host request.facility = .ok f ∧
        (s.resolve host request).1.catalog.facility? request.facility = some f ∧
        ((∃ fault, (s.resolve host request).2.result = .error (.lookup fault)) ↔ f.Unmapped n) ∧
        (¬ f.Unmapped n → ∃ mappings e q, f.schema? n.schema = some mappings ∧
          findEntry mappings.registry n request.path = .ok (e, q) ∧
          (∀ err, (s.resolve host request).2.result = .error (.transform err) ↔
            (s.resolver.resolve ⟨.ofRequest request q (s.turned request).config.version,
              mappings.registry, mappings.globals⟩ e).result = .error err) ∧
          ∀ err, (s.resolve host request).2.result = .error (.transform err) →
            mappings.registry.Registered err.key ∧ mappings.registry.Reaches e.key err.key)) ∧
    ((∀ version, request.version = some version → version = s.catalog.config.version) →
      ∀ name f, s.catalog.facility? name = some f →
        (s.resolve host request).1.catalog.facility? name = some f) := by
  refine ⟨invalid_iff, configuration_iff h.rooted, ?_, fun hversion name f hkept =>
    facility?_resolve hkept hversion⟩
  intro hvalid hconfigured
  obtain ⟨⟨n, hpath⟩, hname⟩ := Request.not_isInvalid_iff.mp hvalid
  rcases resolve_cases h.rooted hpath hname with
    ⟨hreason, _⟩ | ⟨_, f, hsupply, hkept, ⟨hnone, hlookup⟩ | hfound⟩
  · exact absurd hreason hconfigured
  · exact ⟨n, f, hpath, hsupply, hkept, ⟨fun _ => hnone, fun _ => hlookup⟩,
      fun hmapped => absurd hnone hmapped⟩
  · obtain ⟨hmapped, mappings, e, q, hschema, hentry, hreply⟩ := hfound
    refine ⟨n, f, hpath, hsupply, hkept, ⟨?_, fun hnone => absurd hnone hmapped⟩, fun _ =>
      ⟨mappings, e, q, hschema, hentry, ?_, ?_⟩⟩
    · rintro ⟨fault, hlookup⟩
      rw [hreply] at hlookup
      obtain ⟨_, _, hkind⟩ := mapError_eq_error.mp hlookup
      cases hkind
    · intro err
      rw [hreply, mapError_eq_error]
      simp
    · intro err herr
      rw [hreply] at herr
      obtain ⟨_, hresult, hkind⟩ := mapError_eq_error.mp herr
      cases hkind
      exact Resolver.failsOnly_visit_reached (mem_of_findEntry hentry) err hresult

def withoutHook : Host :=
  .ofFindings ⟨"/h"⟩
    [(⟨"/r"⟩, .directory),
     (⟨"/r/F/1/mappings.cfg.json"⟩, .file "\x7b\"m\":\x7b\"mappings\":[\"a\",\"b\"]\x7d\x7d"),
     (⟨"/r/F/1/a"⟩, .file
       "[\x7b\"key\":\"k\",\"type\":\"SLICE\",\"variable\":\"raw\",\"slice\":\"0\"\x7d]"),
     (⟨"/r/F/1/b"⟩, .file "[\x7b\"key\":\"raw\",\"type\":\"CUSTOM\",\"name\":\"gone\"\x7d]")]

def afterLoad : Session :=
  (start firstVersion .standard).run [(withoutHook, .call (.list "F" "m"))]

/-- The error of the inner entry comes through the window, and the facility stays. -/
theorem resolve_classifies_withoutHook :
    afterLoad.Reachable ∧
      (afterLoad.resolve withoutHook (entryOf none)).2.result =
        .error (.transform ⟨"raw", .unknownHook "gone"⟩) ∧
      ∃ f mappings, afterLoad.catalog.facility? "F" = some f ∧
        (afterLoad.resolve withoutHook (entryOf none)).1.catalog.facility? "F" = some f ∧
        f.schema? "m" = some mappings ∧ mappings.registry.Reaches "k" "raw" := by
  have hreachable : afterLoad.Reachable := ⟨firstVersion, .standard, _, rfl⟩
  have hresult : (afterLoad.resolve withoutHook (entryOf none)).2.result =
      .error (.transform ⟨"raw", .unknownHook "gone"⟩) := by
    rfl
  have hsome : (afterLoad.catalog.facility? "F").isSome = true := by
    rfl
  obtain ⟨f, hf⟩ := Option.isSome_iff_exists.mp hsome
  obtain ⟨hinvalid, hconfiguration, hmapped, hkept⟩ :=
    resolve_classifies withoutHook (entryOf none) afterLoad hreachable
  have hafter := hkept (by rintro _ ⟨⟩) "F" f hf
  have hvalid : ¬ (entryOf none).IsInvalid := by
    rw [← hinvalid, hresult]
    rintro ⟨_, ⟨⟩⟩
  have hconfigured : ¬ afterLoad.IsUnconfigured withoutHook (entryOf none) := by
    rw [← hconfiguration hvalid, hresult]
    rintro ⟨_, ⟨⟩⟩
  obtain ⟨n, g, hpath, _, hg, hlookup, hfound⟩ := hmapped hvalid hconfigured
  obtain rfl : f = g := Option.some.inj (hafter.symm.trans hg)
  have hregistered : ¬ f.Unmapped n := by
    rw [← hlookup, hresult]
    rintro ⟨_, ⟨⟩⟩
  obtain ⟨mappings, e, q, hschema, hentry, _, hnames⟩ := hfound hregistered
  obtain rfl : (⟨"m", "k", [], .default⟩ : NormalizedPath) = n := Except.ok.inj hpath
  have hkey : e.key = "k" := by
    rcases findEntry_eq_ok.mp hentry with ⟨hexact, _⟩ | ⟨_, hfallback, _⟩
    · exact Registry.key_of_get? hexact
    · cases hfallback
  obtain ⟨_, hreach⟩ := hnames _ hresult
  exact ⟨hreachable, hresult, f, mappings, hf, hafter, hschema, hkey ▸ hreach⟩

end Session

end SignalMap
