import SignalMap.Proofs.Catalog.Readiness
import SignalMap.Proofs.Catalog.Retention

/-!
Errors that a catalog guards against and never gives. What is kept, the mark of being
ready and the root hang together, and every action keeps it so. Therefore a load always
finds a root, and the facility that mappings are asked of is there once it has been
loaded.
-/

namespace SignalMap

/-! Errors of a load -/

namespace Facility

variable {host : Host} {α β ε : Type}

def NamesFile (result : Except ConfigurationError α) : Prop :=
  ∀ e, result = .error e → (∃ path, e.path = some path) ∧ e.fault ≠ .rootNotSet

namespace NamesFile

theorem ok (a : α) : NamesFile (.ok a) := by
  intro e h
  cases h

theorem bind {result : Except ConfigurationError α} {next : α → Except ConfigurationError β}
    (h : NamesFile result) (hnext : ∀ a, NamesFile (next a)) : NamesFile (result >>= next) := by
  intro e he
  rcases bind_eq_error.mp he with hfirst | ⟨a, _, hsecond⟩
  · exact h e hfirst
  · exact hnext a e hsecond

theorem blame {path : FilePath} {wrap : ε → ConfigurationFault} {result : Except ε α}
    (hwrap : ∀ fault, wrap fault ≠ .rootNotSet) : NamesFile (blame path wrap result) := by
  intro e he
  obtain ⟨fault, _, rfl⟩ := mapError_eq_error.mp he
  exact ⟨⟨path, rfl⟩, hwrap fault⟩

theorem fail {path : FilePath} {fault : ConfigurationFault} (h : fault ≠ .rootNotSet) :
    NamesFile (fail path fault : Except ConfigurationError α) := by
  intro e he
  cases he
  exact ⟨⟨path, rfl⟩, h⟩

end NamesFile

theorem namesFile_readDocument (path : FilePath) : NamesFile (readDocument host path) := by
  refine .bind (.blame fun _ => nofun) fun text => ?_
  cases Json.parse? text with
  | none => exact .fail nofun
  | some document => exact .ok document

theorem namesFile_loadManifest (path : FilePath) : NamesFile (loadManifest host path) := by
  refine (namesFile_readDocument path).bind fun document => ?_
  refine .bind (.blame fun _ => nofun) fun schemas => ?_
  split
  · exact NamesFile.bind (.fail nofun) fun _ => .ok _
  · exact .ok _

theorem namesFile_loadGlobals (path : FilePath) : NamesFile (loadGlobals host path) := by
  refine (namesFile_readDocument path).bind fun document => ?_
  split
  · exact .ok _
  · exact .fail nofun

theorem namesFile_loadFile (schema : String) (registry : Registry) (path : FilePath) :
    NamesFile (loadFile host schema registry path) := by
  refine (namesFile_readDocument path).bind fun document => ?_
  exact .bind (.blame fun _ => nofun) fun entries => .blame fun _ => nofun

theorem namesFile_loadFiles (schema : String) (registry : Registry) (paths : List FilePath) :
    NamesFile (loadFiles host schema registry paths) := by
  induction paths generalizing registry with
  | nil => exact .ok registry
  | cons path rest ih => exact (namesFile_loadFile schema registry path).bind ih

theorem namesFile_loadSchema (base : FilePath) (schema : String) (files : SchemaFiles) :
    NamesFile (loadSchema host base schema files) := by
  rw [loadSchema_eq]
  refine .bind ?_ fun globals => (namesFile_loadFiles schema .empty _).bind fun registry => .ok _
  cases files.globals with
  | none => exact .ok []
  | some relative => exact namesFile_loadGlobals _

theorem namesFile_loadSchemas (base : FilePath) (schemas : List (String × SchemaFiles)) :
    NamesFile (loadSchemas host base schemas) := by
  induction schemas with
  | nil => exact .ok []
  | cons declared rest ih =>
    obtain ⟨schema, files⟩ := declared
    exact (namesFile_loadSchema base schema files).bind fun _ => ih.bind fun _ => .ok _

theorem namesFile_load (root : FilePath) (name version : String) :
    NamesFile (load host root name version) := by
  refine (namesFile_loadManifest _).bind fun manifest => ?_
  exact (namesFile_loadSchemas manifest.baseDirectory manifest.schemas).bind fun _ => .ok _

theorem select_ne_notLoaded (f : Facility) (name schema facility : String) :
    f.select name schema ≠ .error (.notLoaded facility) := by
  unfold select
  cases f.schema? schema with
  | none => simp
  | some mappings => by_cases h : mappings.registry.entries.isEmpty <;> simp [h]

end Facility

/-! What hangs together -/

namespace Catalog

variable {host : Host} {c : Catalog} {name schema : String}

structure Coherent (c : Catalog) : Prop where
  initialised : c.facilities ≠ [] → c.initialised = true
  rooted : c.initialised = true → ∃ root, c.config.root = some root
  named : ∀ name f, (name, f) ∈ c.facilities → f.name = name

namespace Coherent

theorem ofConfig (config : Config) : Coherent (.ofConfig config) where
  initialised h := absurd rfl h
  rooted h := by cases h
  named _ _ h := by cases h

theorem reset (c : Catalog) : Coherent c.reset where
  initialised h := absurd rfl h
  rooted h := by cases h
  named _ _ h := by cases h

theorem setRoot (root : FilePath) (h : Coherent c) : Coherent (c.setRoot root) where
  initialised := h.initialised
  rooted _ := ⟨root, rfl⟩
  named := h.named

theorem setVersion (version : String) (h : Coherent c) : Coherent (c.setVersion version) :=
  ⟨h.initialised, h.rooted, h.named⟩

theorem initialised_of_isReady (h : Coherent c) (hready : c.isReady = true) :
    c.initialised = true := by
  unfold isReady at hready
  rcases Bool.or_eq_true_iff.mp hready with hmark | hkept
  · exact hmark
  · exact h.initialised (by simpa using hkept)

theorem isRooted (h : Coherent c) : Rooted c :=
  fun hready => h.rooted (h.initialised_of_isReady hready)

/-- Making ready marks the catalog, and finds a root. -/
theorem init {ready : Catalog} (h : Coherent c) (hinit : c.init host = .ok ready) :
    Coherent ready where
  initialised hne := by
    rw [eq_of_init hinit] at hne
    exact initialised_of_init hinit (h.initialised hne)
  rooted _ := h.isRooted.root_of_init hinit
  named := by
    rw [eq_of_init hinit]
    exact h.named

theorem initialised_after_init {ready : Catalog} (h : Coherent c)
    (hinit : c.init host = .ok ready) : ready.initialised = true :=
  (h.init hinit).initialised_of_isReady (isReady_of_init hinit)

/-- A load is made by a catalog that is marked, and what it gives has the name that it
is kept under. -/
theorem keep_loads (host : Host) (name : String) (h : Coherent c) (hmark : c.initialised = true) :
    Coherent (c.keep (c.loads host name)) where
  initialised _ := hmark
  rooted := h.rooted
  named := by
    intro key f hmem
    rcases List.mem_append.mp hmem with hold | hnew
    · exact h.named key f hold
    · obtain ⟨l, _, hstored⟩ := List.mem_flatMap.mp hnew
      obtain ⟨rfl, hresult⟩ := Load.mem_stored.mp hstored
      exact (Facility.names_of_load hresult).1

theorem mappings (host : Host) (name schema : String) (h : Coherent c) :
    Coherent (c.mappings host name schema).1 := by
  rcases fst_mappings host name schema c with ⟨hsame, _⟩ | ⟨ready, hinit, _, hkept⟩
  · rw [hsame]
    exact h
  · rw [hkept]
    exact (h.init hinit).keep_loads host name (h.initialised_after_init hinit)

theorem act (h : Coherent c) (host : Host) (action : Action) : Coherent (c.act host action) := by
  cases action with
  | init =>
    unfold Catalog.act
    cases hinit : c.init host with
    | error e => exact h
    | ok ready => exact h.init hinit
  | reset => exact .reset c
  | setRoot root => exact h.setRoot root
  | setVersion version => exact h.setVersion version
  | mappings facility schema => exact h.mappings host facility schema

theorem run (h : Coherent c) (history : List (Host × Action)) : Coherent (c.run history) :=
  run_induction h fun step _ _ h => h.act step.1 step.2

end Coherent

/-! Errors that are never given -/

/-- With a root, a load has an error of the files or none. -/
theorem namesFile_of_load {root : FilePath} (hroot : c.config.root = some root) :
    Facility.NamesFile (c.load host name).2 := by
  have hload : Facility.NamesFile (Facility.load host root name c.config.version) :=
    Facility.namesFile_load root name c.config.version
  unfold load
  rw [hroot]
  dsimp only
  cases hresult : Facility.load host root name c.config.version with
  | ok f => exact .ok ()
  | error e =>
    rw [hresult] at hload
    intro other hother
    cases hother
    exact hload e rfl

/-- Without a facility to answer from a load was tried, and the error is its own. -/
theorem load_of_supply_eq_error {e : ConfigurationError} (h : c.supply host name = .error e) :
    (c.load host name).2 = .error e := by
  unfold supply at h
  unfold load
  cases hkept : c.facility? name with
  | some f => simp [hkept] at h
  | none =>
    cases hroot : c.config.root with
    | none => simpa [hkept, hroot] using h
    | some root =>
      simp only [hkept, hroot] at h
      simp only [h]

/-- Asking for mappings fails at the name, when making ready, at a load, or because the
facility has no such mappings. -/
theorem mappings_eq_error {e : MappingError} (h : (c.mappings host name schema).2 = .error e) :
    (∃ fault, checkName name = .error fault ∧ e = .invalidRequest fault) ∨
      (∃ cause, c.init host = .error cause ∧ e = .configuration cause) ∨
      (∃ ready cause, c.init host = .ok ready ∧ (ready.load host name).2 = .error cause ∧
        e = .configuration cause) ∨
      ∃ f fault, Facility.select f name schema = .error fault ∧ e = .lookup fault := by
  rw [mappings_eq] at h
  cases hname : checkName name with
  | error fault =>
    simp only [hname, Except.error.injEq] at h
    exact Or.inl ⟨fault, rfl, h.symm⟩
  | ok _ =>
    cases hinit : c.init host with
    | error cause =>
      simp only [hname, hinit, Except.error.injEq] at h
      exact Or.inr (Or.inl ⟨cause, rfl, h.symm⟩)
    | ok ready =>
      simp only [hname, hinit] at h
      rcases bind_eq_error.mp h with hsupply | ⟨f, _, hselect⟩
      · obtain ⟨cause, hcause, rfl⟩ := mapError_eq_error.mp hsupply
        exact Or.inr (Or.inr (Or.inl ⟨ready, cause, rfl, load_of_supply_eq_error hcause, rfl⟩))
      · obtain ⟨fault, hfault, rfl⟩ := mapError_eq_error.mp hselect
        exact Or.inr (Or.inr (Or.inr ⟨f, fault, hfault, rfl⟩))

/-- After any run what is kept, the mark and the root hang together. A load by a catalog
that has been made ready never finds that there is no root; asking for mappings never
finds a facility missing, and finds no root only when making ready does. -/
theorem reached_coherent (config : Config) (history : List (Host × Action)) :
    (reached config history).Coherent ∧
    (∀ host name ready e, (reached config history).init host = .ok ready →
      (ready.load host name).2 = .error e → e.fault ≠ .rootNotSet) ∧
    ∀ host name schema,
      (∀ facility, ((reached config history).mappings host name schema).2 ≠
        .error (.lookup (.notLoaded facility))) ∧
      ∀ e, ((reached config history).mappings host name schema).2 = .error (.configuration e) →
        e.fault = .rootNotSet → (reached config history).init host = .error e := by
  have hcoherent : (reached config history).Coherent := (Coherent.ofConfig config).run history
  have hload : ∀ host name ready e, (reached config history).init host = .ok ready →
      (ready.load host name).2 = .error e → e.fault ≠ .rootNotSet := by
    intro host name ready e hinit herror
    obtain ⟨root, hroot⟩ := (hcoherent.init hinit).rooted (hcoherent.initialised_after_init hinit)
    exact (namesFile_of_load hroot e herror).2
  refine ⟨hcoherent, hload, ?_⟩
  intro host name schema
  constructor
  · intro facility h
    rcases mappings_eq_error h with ⟨_, _, hkind⟩ | ⟨_, _, hkind⟩ | ⟨_, _, _, _, hkind⟩ |
      ⟨f, fault, hselect, hkind⟩
    · cases hkind
    · cases hkind
    · cases hkind
    · cases hkind
      exact f.select_ne_notLoaded name schema facility hselect
  · intro e h hfault
    rcases mappings_eq_error h with ⟨_, _, hkind⟩ | ⟨_, hinit, hkind⟩ |
      ⟨ready, cause, hinit, herror, hkind⟩ | ⟨_, _, _, hkind⟩
    · cases hkind
    · cases hkind
      exact hinit
    · cases hkind
      exact absurd hfault (hload host name ready e hinit herror)
    · cases hkind

/-- Without a root a load that comes before anything else does find that there is none. -/
example (host : Host) (name : String) :
    ((ofConfig .standard).load host name).2 = .error ⟨.rootNotSet, none⟩ := rfl

end Catalog

end SignalMap
