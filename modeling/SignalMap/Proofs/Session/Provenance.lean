import SignalMap.Proofs.Session.Runs

/-!
Which version a request is answered from. A facility that is kept knows the
place of the manifest that it was loaded from. Turning to a version forgets
what was loaded for another one, but setting the version alone does not: a
facility that is kept across it answers requests for the new version from the
old manifest. Nothing else brings two versions together.
-/

namespace SignalMap

def Load.location (l : Load) : FilePath :=
  Manifest.location l.root l.name l.version

theorem Load.path_of_result {l : Load} {f : Facility} (h : l.result = .ok f) :
    f.manifest.path = l.location :=
  Facility.path_of_load h

namespace Session

def supplier? (host : Host) (request : Request) (s : Session) : Option Facility :=
  match request.normalize with
  | .error _ => none
  | .ok p =>
    let (catalog, found) :=
      (s.catalog.switchVersion request.version).mappings host request.facility p.schema
    match found with
    | .error _ => none
    | .ok mappings =>
      match findEntry mappings.registry p request.path with
      | .error _ => none
      | .ok _ => catalog.facility? request.facility

variable {host : Host} {request : Request} {s : Session}

theorem supplier?_eq_some_iff {f : Facility} :
    s.supplier? host request = some f ↔
      ∃ p mappings found, request.normalize = .ok p ∧
        ((s.catalog.switchVersion request.version).mappings
          host request.facility p.schema).2 = .ok mappings ∧
        findEntry mappings.registry p request.path = .ok found ∧
        (s.resolve host request).1.catalog.facility? request.facility = some f := by
  unfold supplier?
  cases hpath : request.normalize with
  | error fault => simp
  | ok p =>
    simp only [resolve_of_normalized hpath]
    cases hmappings : ((s.catalog.switchVersion request.version).mappings
        host request.facility p.schema).2 with
    | error e => simp [hmappings]
    | ok mappings =>
      cases hfound : findEntry mappings.registry p request.path with
      | error fault => simp [hmappings, hfound]
      | ok found =>
        obtain ⟨e, q⟩ := found
        simp [hmappings, hfound]

/-- A request that reaches an entry has a supplier, and the reply is made from
the entries and the globals that the supplier holds under the schema. -/
theorem reply_of_supplier? {f : Facility} (h : s.supplier? host request = some f) :
    ∃ p mappings, request.normalize = .ok p ∧ f.schema? p.schema = some mappings ∧
      (s.resolve host request).2 = reply s.resolver
        (request.version.getD s.catalog.config.version) request p mappings := by
  obtain ⟨p, mappings, found, hpath, hmappings, _, hkept⟩ := supplier?_eq_some_iff.mp h
  obtain ⟨g, hg, hschema⟩ := Catalog.facility?_of_mappings hmappings
  rw [resolve_of_normalized hpath] at hkept ⊢
  have hsame : g = f := Option.some.inj (hg.symm.trans hkept)
  subst hsame
  exact ⟨p, mappings, hpath, hschema, by simp only [hmappings]⟩

def Action.root? : Action → Option FilePath
  | .setRoot root => some root
  | _ => none

def roots (config : Config) (history : List (Host × Action)) : List FilePath :=
  config.root.toList ++ history.filterMap fun step => step.2.root?

def heldLoads (config : Config) (resolver : Resolver) (history : List (Host × Action)) :
    List Load :=
  Catalog.heldLoads config ((start config resolver).trace history)

/-- A facility is kept from a manifest that is none of those of a version, and
the version is the current one, so that naming it forgets nothing. -/
def Stale (config : Config) (resolver : Resolver) (history : List (Host × Action))
    (facility version : String) : Prop :=
  ((start config resolver).run history).catalog.config.version = version ∧
    ∃ l ∈ heldLoads config resolver history, l.name = facility ∧ (∃ f, l.result = .ok f) ∧
      ∀ root ∈ roots config history, l.location ≠ Manifest.location root facility version

theorem filterMap_root?_turnSteps (c : Catalog) (version : Option String) :
    (c.turnSteps version).filterMap Catalog.Action.root? = [] := by
  cases version with
  | none => rfl
  | some version =>
    by_cases hsame : version = c.config.version
    · simp only [Catalog.turnSteps, if_pos hsame]
      rfl
    · simp only [Catalog.turnSteps, if_neg hsame]
      rfl

theorem filterMap_root?_steps (c : Catalog) (action : Action) :
    (action.steps c).filterMap Catalog.Action.root? = action.root?.toList := by
  cases action with
  | setRoot root => rfl
  | setVersion version => rfl
  | call call =>
    cases call with
    | list facility schema => rfl
    | init => rfl
    | reset => rfl
    | resolve request =>
      cases hpath : request.normalize with
      | error fault =>
        simp only [Action.steps, hpath]
        rfl
      | ok p =>
        simp only [Action.steps, hpath, List.filterMap_append, filterMap_root?_turnSteps]
        rfl

theorem roots_trace (s : Session) (config : Config) (history : List (Host × Action)) :
    Catalog.roots config (s.trace history) = roots config history := by
  unfold Catalog.roots roots
  congr 1
  induction history generalizing s with
  | nil => rfl
  | cons step rest ih =>
    obtain ⟨host, action⟩ := step
    calc
      (s.trace ((host, action) :: rest)).filterMap (fun step => step.2.root?) =
          (action.steps s.catalog).filterMap Catalog.Action.root? ++
            ((s.act host action).trace rest).filterMap fun step => step.2.root? := by
        simp only [trace, List.filterMap_append, List.filterMap_map, Function.comp_def]
      _ = action.root?.toList ++ rest.filterMap fun step => step.2.root? := by
        rw [filterMap_root?_steps, ih]
      _ = ((host, action) :: rest).filterMap fun step => step.2.root? := by
        cases hroot : action.root? with
        | none => simp [hroot]
        | some root => simp [hroot]

theorem accounts_run (config : Config) (resolver : Resolver) (history : List (Host × Action)) :
    Catalog.Accounts (roots config history) (heldLoads config resolver history)
      ((start config resolver).run history).catalog := by
  rw [catalog_run, ← roots_trace (start config resolver)]
  exact Catalog.accounts_run config _

/-- What a request that names a version leaves is accounted for by what was held
before, if the version was the current one, and loads under the version. -/
theorem accounts_resolve (host : Host) {roots : List FilePath} {held : List Load}
    {version : String} {p : NormalizedPath} (h : s.catalog.Accounts roots held)
    (hpath : request.normalize = .ok p) (hversion : request.version = some version) :
    ∃ new, (∀ l ∈ new, l.name = request.facility ∧ l.version = version) ∧
      (s.resolve host request).1.catalog.Accounts roots
        ((if s.catalog.config.version = version then held else []) ++ new) := by
  rw [resolve_of_normalized hpath, hversion]
  refine ⟨(s.catalog.switchVersion (some version)).mappingLoads host request.facility, ?_, ?_⟩
  · intro l hl
    obtain ⟨hname, hlversion⟩ := Catalog.mem_mappingLoads hl
    rw [Catalog.config_switchVersion] at hlversion
    exact ⟨hname, hlversion⟩
  · refine Catalog.Accounts.mappings host request.facility p.schema ?_
    by_cases hsame : version = s.catalog.config.version
    · rw [if_pos hsame.symm]
      simpa only [Catalog.switchVersion, if_pos hsame] using h
    · rw [if_neg (Ne.symm hsame)]
      simpa only [Catalog.switchVersion, if_neg hsame] using (h.setVersion version).reset

/-- A request that names a version is answered from what its supplier holds, and this
comes from a manifest of that version if and only if no stale facility is kept for it. -/
theorem supplier_path_iff_not_stale {config : Config} {resolver : Resolver}
    {history : List (Host × Action)} {host : Host} {request : Request} {version : String}
    {store : Facility} (hversion : request.version = some version)
    (hstore : ((start config resolver).run history).supplier? host request = some store) :
    (∃ p mappings, request.normalize = .ok p ∧ store.schema? p.schema = some mappings ∧
      (((start config resolver).run history).resolve host request).2 =
        reply resolver version request p mappings) ∧
    ((∃ root ∈ roots config history,
        store.manifest.path = Manifest.location root request.facility version) ↔
      ¬ Stale config resolver history request.facility version) := by
  have hreply := reply_of_supplier? hstore
  rw [resolver_run, hversion] at hreply
  refine ⟨hreply, ?_⟩
  obtain ⟨p, mappings, found, hpath, _, _, hkept⟩ := supplier?_eq_some_iff.mp hstore
  obtain ⟨new, hnew, haccounts⟩ :=
    accounts_resolve host (accounts_run config resolver history) hpath hversion
  constructor
  · rintro ⟨root, hroot, hplace⟩ ⟨hcurrent, l, hl, hname, ⟨f, hresult⟩, happart⟩
    rw [if_pos hcurrent] at haccounts
    have hheld : ∃ l' ∈ heldLoads config resolver history ++ new,
        l'.name = request.facility ∧ l'.result = .ok f :=
      ⟨l, List.mem_append_left new hl, hname, hresult⟩
    have hstill := haccounts.facility?_eq_some_iff.mpr hheld
    rw [hkept] at hstill
    cases hstill
    exact happart root hroot ((Load.path_of_result hresult).symm.trans hplace)
  · intro hfresh
    obtain ⟨l, hl, hname, hresult⟩ := haccounts.facility?_eq_some_iff.mp hkept
    have hplace := Load.path_of_result hresult
    rcases List.mem_append.mp hl with hold | hload
    · by_cases hcurrent :
          ((start config resolver).run history).catalog.config.version = version
      · rw [if_pos hcurrent] at hold
        by_contra hnone
        refine hfresh ⟨hcurrent, l, hold, hname, ⟨store, hresult⟩, ?_⟩
        intro root hroot hsame
        exact hnone ⟨root, hroot, hplace.trans hsame⟩
      · rw [if_neg hcurrent] at hold
        cases hold
    · obtain ⟨_, hlversion⟩ := hnew l hload
      refine ⟨l.root, haccounts.rooted l hl, ?_⟩
      rw [hplace, Load.location, hname, hlversion]

def twoVersions : Host :=
  .ofFindings ⟨"/h"⟩
    [(⟨"/r"⟩, .directory),
     (⟨"/r/F/1/mappings.cfg.json"⟩, .file "\x7b\"m\":\x7b\"mappings\":\"a\"\x7d\x7d"),
     (⟨"/r/F/1/a"⟩, .file "[\x7b\"key\":\"k\",\"type\":\"VALUE\",\"value\":\"old\"\x7d]"),
     (⟨"/r/F/2/mappings.cfg.json"⟩, .file "\x7b\"m\":\x7b\"mappings\":\"a\"\x7d\x7d"),
     (⟨"/r/F/2/a"⟩, .file "[\x7b\"key\":\"k\",\"type\":\"VALUE\",\"value\":\"new\"\x7d]")]

def firstVersion : Config :=
  ⟨some ⟨"/r"⟩, "1"⟩

def entryOf (version : Option String) : Request :=
  ⟨"F", "m/k", [], version, none, none, none⟩

def askedOnce : List (Host × Action) :=
  [(twoVersions, .call (.resolve (entryOf none)))]

/-- Naming the other version in a request turns to it. -/
theorem supplier_path_after_turning :
    ∃ store, ((start firstVersion .standard).run askedOnce).supplier? twoVersions
        (entryOf (some "2")) = some store ∧
      (∃ p mappings, (entryOf (some "2")).normalize = .ok p ∧
        store.schema? p.schema = some mappings ∧
        (((start firstVersion .standard).run askedOnce).resolve twoVersions
          (entryOf (some "2"))).2 = reply .standard "2" (entryOf (some "2")) p mappings) ∧
      ((∃ root ∈ roots firstVersion askedOnce,
          store.manifest.path = Manifest.location root (entryOf (some "2")).facility "2") ↔
        ¬ Stale firstVersion .standard askedOnce (entryOf (some "2")).facility "2") := by
  have hplace : (((start firstVersion .standard).run askedOnce).supplier? twoVersions
      (entryOf (some "2"))).map (fun f => f.manifest.path) =
        some ⟨"/r/F/2/mappings.cfg.json"⟩ := by rfl
  obtain ⟨store, hstore, _⟩ := Option.map_eq_some_iff.mp hplace
  have hversion : (entryOf (some "2")).version = some "2" := rfl
  exact ⟨store, hstore, supplier_path_iff_not_stale hversion hstore⟩

/-- Setting the version alone does not: the facility that is kept answers for
the other version. -/
theorem not_forall_supplier_path :
    ¬ ∀ (config : Config) (resolver : Resolver) (history : List (Host × Action)) (host : Host)
        (request : Request) (version : String) (store : Facility),
      request.version = some version →
        ((start config resolver).run history).supplier? host request = some store →
          ∃ root ∈ roots config history,
            store.manifest.path = Manifest.location root request.facility version := by
  intro hall
  have hplace : (((start firstVersion .standard).run
      (askedOnce ++ [(twoVersions, .setVersion "2")])).supplier? twoVersions
        (entryOf (some "2"))).map (fun f => f.manifest.path) =
          some ⟨"/r/F/1/mappings.cfg.json"⟩ := by rfl
  obtain ⟨store, hstore, hpath⟩ := Option.map_eq_some_iff.mp hplace
  obtain ⟨root, hroot, hsame⟩ := hall _ _ _ _ _ _ store rfl hstore
  have honly : root = ⟨"/r"⟩ := List.mem_singleton.mp hroot
  rw [hpath, honly] at hsame
  have hdifferent : (⟨"/r/F/1/mappings.cfg.json"⟩ : FilePath) ≠
      Manifest.location ⟨"/r"⟩ "F" "2" := by decide
  exact hdifferent hsame

end Session

end SignalMap
