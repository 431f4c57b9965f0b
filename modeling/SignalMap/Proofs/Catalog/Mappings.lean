import Mathlib.Tactic.Common
import SignalMap.Proofs.Result
import SignalMap.Catalog

/-!
Asking a catalog for mappings: what it answers and what it keeps. The answer
goes through three gates, the name, the root and the facility, and only a
facility that was not kept before makes a load. A load keeps the whole facility
or nothing, and a facility knows the manifest that it was loaded from. Turning
to another version forgets all that is kept.
-/

namespace SignalMap

def Facility.select (f : Facility) (name schema : String) : Except LookupFault SchemaMappings :=
  match f.schema? schema with
  | none => .error (.noSchema schema name)
  | some mappings =>
    if mappings.registry.entries.isEmpty then .error (.emptySchema schema name)
    else .ok mappings

theorem Facility.select_eq_ok_iff {f : Facility} {name schema : String}
    {mappings : SchemaMappings} :
    f.select name schema = .ok mappings ↔
      f.schema? schema = some mappings ∧ mappings.registry.entries ≠ [] := by
  unfold select
  cases f.schema? schema with
  | none => simp
  | some found =>
    by_cases hempty : found.registry.entries = []
    · simp only [hempty, List.isEmpty_nil, if_true]
      constructor
      · intro h
        cases h
      · rintro ⟨hfound, hne⟩
        cases hfound
        exact absurd hempty hne
    · simp only [List.isEmpty_iff, hempty, if_false]
      constructor
      · intro h
        cases h
        exact ⟨rfl, hempty⟩
      · rintro ⟨hfound, _⟩
        cases hfound
        rfl

theorem Facility.schema?_of_select {f : Facility} {name schema : String}
    {mappings : SchemaMappings} (h : f.select name schema = .ok mappings) :
    f.schema? schema = some mappings :=
  (select_eq_ok_iff.mp h).1

theorem Facility.path_of_loadManifest {host : Host} {path : FilePath} {m : Manifest}
    (h : Facility.loadManifest host path = .ok m) : m.path = path := by
  obtain ⟨document, _, h⟩ := bind_eq_ok.mp h
  obtain ⟨schemas, _, h⟩ := bind_eq_ok.mp h
  by_cases hempty : schemas.isEmpty
  · rw [if_pos hempty] at h
    obtain ⟨_, hfail, _⟩ := bind_eq_ok.mp h
    cases hfail
  · rw [if_neg hempty] at h
    cases h
    rfl

theorem Facility.path_of_load {host : Host} {root : FilePath} {name version : String}
    {f : Facility} (h : Facility.load host root name version = .ok f) :
    f.manifest.path = Manifest.location root name version := by
  obtain ⟨manifest, hmanifest, h⟩ := bind_eq_ok.mp h
  obtain ⟨schemas, _, h⟩ := bind_eq_ok.mp h
  cases h
  exact path_of_loadManifest hmanifest

structure Load where
  host : Host
  root : FilePath
  name : String
  version : String

namespace Load

def result (l : Load) : Except ConfigurationError Facility :=
  Facility.load l.host l.root l.name l.version

def stored (l : Load) : List (String × Facility) :=
  match l.result with
  | .ok f => [(l.name, f)]
  | .error _ => []

theorem mem_stored {l : Load} {name : String} {f : Facility} :
    (name, f) ∈ l.stored ↔ name = l.name ∧ l.result = .ok f := by
  unfold stored
  cases l.result with
  | error e => simp
  | ok g => simp [eq_comm]

end Load

namespace Catalog

variable {host : Host} {c : Catalog} {name schema : String}

def isReady (c : Catalog) : Bool :=
  c.initialised || !c.facilities.isEmpty

def supply (host : Host) (name : String) (c : Catalog) : Except ConfigurationError Facility :=
  match c.facility? name with
  | some f => .ok f
  | none =>
    match c.config.root with
    | none => .error ⟨.rootNotSet, none⟩
    | some root => Facility.load host root name c.config.version

theorem init_of_isReady (h : c.isReady = true) : c.init host = .ok c := by
  unfold isReady at h
  unfold init
  rw [if_pos h]

theorem init_of_not_isReady (h : c.isReady = false) :
    c.init host =
      match c.config.root with
      | none => .error ⟨.rootNotSet, none⟩
      | some root =>
        if host.isDirectory root then .ok { c with initialised := true }
        else .error ⟨.rootMissing, some root⟩ := by
  unfold isReady at h
  unfold init
  exact if_neg (by simp [h])

/-- A catalog that is ready stays as it is; another one is marked if its root is a
directory. -/
theorem init_eq_ok {ready : Catalog} :
    c.init host = .ok ready ↔
      c.isReady = true ∧ ready = c ∨
      c.isReady = false ∧ ∃ root, c.config.root = some root ∧ host.isDirectory root = true ∧
        ready = { c with initialised := true } := by
  cases hready : c.isReady with
  | true => simp [init_of_isReady hready, eq_comm (b := ready)]
  | false =>
    rw [init_of_not_isReady hready]
    cases hroot : c.config.root with
    | none => simp
    | some root =>
      by_cases hdirectory : host.isDirectory root
      · simp [hdirectory, eq_comm (b := ready)]
      · simp [hdirectory]

/-- Making ready changes the mark and nothing else. -/
theorem eq_of_init {ready : Catalog} (h : c.init host = .ok ready) :
    ready = { c with initialised := ready.initialised } := by
  rcases init_eq_ok.mp h with ⟨_, rfl⟩ | ⟨_, _, _, _, rfl⟩
  · rfl
  · rfl

theorem directory_of_init {ready : Catalog} (h : c.init host = .ok ready)
    (hready : c.isReady = false) :
    ∃ root, c.config.root = some root ∧ host.isDirectory root = true := by
  rcases init_eq_ok.mp h with ⟨hyes, _⟩ | ⟨_, root, hroot, hdirectory, _⟩
  · rw [hready] at hyes
    cases hyes
  · exact ⟨root, hroot, hdirectory⟩

theorem supply_of_init {ready : Catalog} (h : c.init host = .ok ready) :
    ready.supply host name = c.supply host name := by
  rw [eq_of_init h]
  rfl

theorem findSchema_of_facility? {f : Facility} (h : c.facility? name = some f) :
    c.findSchema name schema = f.select name schema := by
  cases hschema : f.schema? schema with
  | none => simp only [findSchema, Facility.select, h, hschema]
  | some mappings => simp only [findSchema, Facility.select, h, hschema]

def loads (host : Host) (name : String) (c : Catalog) : List Load :=
  match c.facility? name, c.config.root with
  | none, some root => [⟨host, root, name, c.config.version⟩]
  | _, _ => []

theorem mem_loads {l : Load} : l ∈ c.loads host name ↔
    c.config.root = some l.root ∧ c.facility? name = none ∧
      l.host = host ∧ l.name = name ∧ l.version = c.config.version := by
  unfold loads
  cases hkept : c.facility? name with
  | some f => simp
  | none =>
    cases hroot : c.config.root with
    | none => simp
    | some root =>
      obtain ⟨lhost, lroot, lname, lversion⟩ := l
      simp [eq_comm (a := root), and_left_comm]

/-- There is at most one. -/
theorem loads_eq_of_mem {l : Load} (h : l ∈ c.loads host name) : c.loads host name = [l] := by
  unfold loads at h ⊢
  split at h
  next => rw [List.mem_singleton.mp h]
  next => cases h

/-- The load that is made is the one that answers. -/
theorem supply_of_mem_loads {l : Load} (h : l ∈ c.loads host name) :
    c.supply host name = l.result := by
  obtain ⟨hroot, hkept, rfl, rfl, hversion⟩ := mem_loads.mp h
  unfold supply
  rw [hkept, hroot, ← hversion]
  rfl

def keep (loads : List Load) (c : Catalog) : Catalog :=
  { c with
    facilities := c.facilities ++ loads.flatMap Load.stored
    loadCount := c.loadCount + loads.length }

theorem keep_nil : c.keep [] = c := by
  simp [keep]

theorem ensureLoaded_eq : c.ensureLoaded host name =
    (c.keep (c.loads host name), (c.supply host name).map fun _ => ()) := by
  unfold ensureLoaded supply loads
  cases hkept : c.facility? name with
  | some f =>
    simp only [Option.isSome_some, if_true, keep_nil]
    rfl
  | none =>
    simp only [Option.isSome_none, Bool.false_eq_true, if_false]
    unfold load
    cases hroot : c.config.root with
    | none =>
      simp only [keep_nil]
      rfl
    | some root =>
      cases hload : Facility.load host root name c.config.version with
      | error e => simp [hload, keep, Load.stored, Load.result, Except.map]
      | ok f => simp [hload, keep, Load.stored, Load.result, Except.map]

/-- The facility that answers is kept afterwards. -/
theorem facility?_keep_loads {f : Facility} (h : c.supply host name = .ok f) :
    (c.keep (c.loads host name)).facility? name = some f := by
  unfold supply at h
  unfold loads
  cases hkept : c.facility? name with
  | some g =>
    simp only [hkept, Except.ok.injEq] at h
    subst h
    rw [keep_nil, hkept]
  | none =>
    cases hroot : c.config.root with
    | none => simp [hkept, hroot] at h
    | some root =>
      simp only [hkept, hroot] at h
      unfold facility? at hkept
      simp [keep, facility?, Load.stored, Load.result, h, List.lookup_append, hkept]

/-- What is kept after the loads was kept before or answers now. -/
theorem facility?_of_keep_loads {other : String} {f : Facility}
    (h : (c.keep (c.loads host name)).facility? other = some f) :
    c.facility? other = some f ∨ other = name ∧ c.supply host name = .ok f := by
  unfold keep facility? at h
  rw [List.lookup_append, Option.or_eq_some_iff] at h
  rcases h with hold | ⟨_, hnew⟩
  · exact Or.inl hold
  · right
    obtain ⟨before, after, hsplit, _⟩ := List.lookup_eq_some_iff.mp hnew
    have hmem : (other, f) ∈ (c.loads host name).flatMap Load.stored := by
      rw [hsplit]
      exact List.mem_append_right _ List.mem_cons_self
    obtain ⟨l, hl, hstored⟩ := List.mem_flatMap.mp hmem
    obtain ⟨rfl, hresult⟩ := Load.mem_stored.mp hstored
    obtain ⟨_, _, _, hname, _⟩ := mem_loads.mp hl
    exact ⟨hname, (supply_of_mem_loads hl).trans hresult⟩

/-- Asking for mappings, step by step: the gates, the loads and the schema. -/
theorem mappings_eq : c.mappings host name schema =
    match checkName name, c.init host with
    | .error fault, _ => (c, .error (.invalidRequest fault))
    | .ok _, .error e => (c, .error (.configuration e))
    | .ok _, .ok ready =>
      (ready.keep (ready.loads host name),
        (ready.supply host name).mapError .configuration >>= fun f =>
          (f.select name schema).mapError .lookup) := by
  unfold mappings
  cases checkName name with
  | error fault => rfl
  | ok _ =>
    cases c.init host with
    | error e => rfl
    | ok ready =>
      simp only [ensureLoaded_eq]
      cases hsupply : ready.supply host name with
      | error e => rfl
      | ok f =>
        have hschema : (ready.keep (ready.loads host name)).findSchema name schema =
            f.select name schema :=
          findSchema_of_facility? (facility?_keep_loads hsupply)
        simp only [Except.map, hschema]
        rfl

def mappingLoads (host : Host) (name : String) (c : Catalog) : List Load :=
  match checkName name, c.init host with
  | .ok _, .ok ready => ready.loads host name
  | _, _ => []

/-- Asking for mappings either changes nothing or keeps the loads of a catalog
that is made ready. -/
theorem fst_mappings (host : Host) (name schema : String) (c : Catalog) :
    (c.mappings host name schema).1 = c ∧ c.mappingLoads host name = [] ∨
      ∃ ready, c.init host = .ok ready ∧
        c.mappingLoads host name = ready.loads host name ∧
        (c.mappings host name schema).1 = ready.keep (ready.loads host name) := by
  rw [mappings_eq]
  unfold mappingLoads
  cases checkName name with
  | error fault => exact Or.inl ⟨rfl, rfl⟩
  | ok _ =>
    cases hinit : c.init host with
    | error e => exact Or.inl ⟨rfl, rfl⟩
    | ok ready => exact Or.inr ⟨ready, rfl, rfl, rfl⟩

theorem mem_mappingLoads {l : Load} (h : l ∈ c.mappingLoads host name) :
    l.name = name ∧ l.version = c.config.version := by
  unfold mappingLoads at h
  cases hname : checkName name with
  | error fault => simp [hname] at h
  | ok _ =>
    cases hinit : c.init host with
    | error e => simp [hname, hinit] at h
    | ok ready =>
      simp only [hname, hinit] at h
      obtain ⟨_, _, _, hlname, hversion⟩ := mem_loads.mp h
      rw [eq_of_init hinit] at hversion
      exact ⟨hlname, hversion⟩

/-- The mappings that are answered are selected from a facility that is kept. -/
theorem select_of_mappings {mappings : SchemaMappings}
    (h : (c.mappings host name schema).2 = .ok mappings) :
    checkName name = .ok () ∧
      ∃ f, (c.mappings host name schema).1.facility? name = some f ∧
        f.select name schema = .ok mappings := by
  rw [mappings_eq] at h ⊢
  cases hname : checkName name with
  | error fault => simp [hname] at h
  | ok _ =>
    cases hinit : c.init host with
    | error e => simp [hname, hinit] at h
    | ok ready =>
      simp only [hname, hinit] at h
      obtain ⟨f, hsupply, hselect⟩ := bind_eq_ok.mp h
      have hkept := facility?_keep_loads (mapError_eq_ok.mp hsupply)
      exact ⟨rfl, f, hkept, mapError_eq_ok.mp hselect⟩

theorem facility?_of_mappings {mappings : SchemaMappings}
    (h : (c.mappings host name schema).2 = .ok mappings) :
    ∃ f, (c.mappings host name schema).1.facility? name = some f ∧
      f.schema? schema = some mappings := by
  obtain ⟨_, f, hkept, hselect⟩ := select_of_mappings h
  exact ⟨f, hkept, Facility.schema?_of_select hselect⟩

theorem config_mappings (host : Host) (name schema : String) (c : Catalog) :
    (c.mappings host name schema).1.config = c.config := by
  rcases fst_mappings host name schema c with ⟨hsame, _⟩ | ⟨ready, hinit, _, hkept⟩
  · rw [hsame]
  · rw [hkept, eq_of_init hinit]
    rfl

/-- Turning to a version does nothing, or it sets another version and forgets
what was loaded. -/
theorem switchVersion_cases (version : Option String) (c : Catalog) :
    c.switchVersion version = c ∨
      ∃ next, version = some next ∧ next ≠ c.config.version ∧
        c.switchVersion version = (c.setVersion next).reset := by
  cases version with
  | none => exact Or.inl rfl
  | some next =>
    by_cases hsame : next = c.config.version
    · exact Or.inl (if_pos hsame)
    · exact Or.inr ⟨next, rfl, hsame, if_neg hsame⟩

theorem config_switchVersion (version : Option String) (c : Catalog) :
    (c.switchVersion version).config =
      { c.config with version := version.getD c.config.version } := by
  cases version with
  | none => rfl
  | some version =>
    by_cases hsame : version = c.config.version
    · simp only [switchVersion, if_pos hsame, Option.getD_some]
      rw [hsame]
    · simp only [switchVersion, if_neg hsame]
      rfl

end Catalog

end SignalMap
