import SignalMap.Proofs.Catalog.Loads
import SignalMap.Proofs.Lookup.Keys

/-!
What a catalog keeps, and for how long. A facility is kept as one load gave it
as a whole, from that load to the next reset, whatever is set and whatever
becomes of the files in between. A load that fails leaves nothing behind and is
made again when the facility is asked for again.
-/

namespace SignalMap

/-- A loaded facility has mappings for every schema of its manifest. -/
theorem Facility.names_of_load {host : Host} {root : FilePath} {name version : String}
    {f : Facility} (h : Facility.load host root name version = .ok f) :
    f.name = name ∧ f.schemas.map Prod.fst = f.manifest.schemas.map Prod.fst := by
  obtain ⟨manifest, _, h⟩ := bind_eq_ok.mp h
  obtain ⟨schemas, hschemas, h⟩ := bind_eq_ok.mp h
  cases h
  exact ⟨rfl, (schemas_of_loadSchemas hschemas).1⟩

namespace Catalog

variable {host : Host} {c : Catalog} {name schema : String} {f : Facility}

/-! Loads -/

def actionLoads (host : Host) (c : Catalog) : Action → List Load
  | .mappings facility _ => c.mappingLoads host facility
  | _ => []

def runLoads (c : Catalog) : List (Host × Action) → List Load
  | [] => []
  | (host, action) :: rest => c.actionLoads host action ++ runLoads (c.act host action) rest

/-- A load is made for a facility that is not kept, under a name that is one of a
directory, by a catalog that can be made ready and has a root. -/
theorem mem_mappingLoads_iff {l : Load} : l ∈ c.mappingLoads host name ↔
    checkName name = .ok () ∧ (∃ ready, c.init host = .ok ready) ∧
      c.facility? name = none ∧ c.config.root = some l.root ∧
      l.host = host ∧ l.name = name ∧ l.version = c.config.version := by
  unfold mappingLoads
  cases hname : checkName name with
  | error fault => simp
  | ok _ =>
    cases hinit : c.init host with
    | error e => simp
    | ok ready =>
      have hready := eq_of_init hinit
      change l ∈ ready.loads host name ↔ _
      rw [mem_loads, hready]
      simp [facility?, and_left_comm]

theorem mappingLoads_eq_of_mem {l : Load} (h : l ∈ c.mappingLoads host name) :
    c.mappingLoads host name = [l] := by
  unfold mappingLoads at h ⊢
  split at h
  next => exact loads_eq_of_mem h
  next => cases h

theorem initialised_of_init {ready : Catalog} (hinit : c.init host = .ok ready)
    (h : c.initialised = true) : ready.initialised = true := by
  have hready : c.isReady = true := by simp [isReady, h]
  rw [init_of_isReady hready] at hinit
  cases hinit
  exact h

/-- Any action but a reset keeps its loads; it may make the catalog ready and
change a setting, and does nothing else. -/
theorem act_of_ne_reset {action : Action} (h : action ≠ .reset) :
    ∃ initialised config, (c.initialised = true → initialised = true) ∧
      (c.config.root.isSome = true → config.root.isSome = true) ∧
      c.act host action = { c.keep (c.actionLoads host action) with initialised, config } := by
  cases action with
  | reset => exact absurd rfl h
  | setRoot root =>
    refine ⟨c.initialised, { c.config with root := some root }, id, fun _ => rfl, ?_⟩
    simp only [act, setRoot, actionLoads, keep_nil]
  | setVersion version =>
    refine ⟨c.initialised, { c.config with version }, id, id, ?_⟩
    simp only [act, setVersion, actionLoads, keep_nil]
  | init =>
    cases hinit : c.init host with
    | error e =>
      refine ⟨c.initialised, c.config, id, id, ?_⟩
      simp only [act, hinit, actionLoads, keep_nil]
    | ok ready =>
      refine ⟨ready.initialised, c.config, initialised_of_init hinit, id, ?_⟩
      simp only [act, hinit, actionLoads, keep_nil]
      exact eq_of_init hinit
  | mappings facility schema =>
    change ∃ initialised config, _ ∧ _ ∧ (c.mappings host facility schema).1 =
      { c.keep (c.mappingLoads host facility) with initialised, config }
    rcases fst_mappings host facility schema c with ⟨hsame, hnone⟩ | ⟨ready, hinit, hloads, hkept⟩
    · refine ⟨c.initialised, c.config, id, id, ?_⟩
      rw [hsame, hnone, keep_nil]
    · refine ⟨ready.initialised, c.config, initialised_of_init hinit, id, ?_⟩
      rw [hkept, hloads, eq_of_init hinit]
      rfl

theorem loadCount_act (host : Host) (c : Catalog) (action : Action) :
    (c.act host action).loadCount = c.loadCount + (c.actionLoads host action).length := by
  by_cases hreset : action = .reset
  · rw [hreset]
    rfl
  · obtain ⟨initialised, config, _, _, hact⟩ := act_of_ne_reset hreset
    rw [hact]
    rfl

theorem loadCount_run (c : Catalog) (history : List (Host × Action)) :
    (c.run history).loadCount = c.loadCount + (c.runLoads history).length := by
  induction history generalizing c with
  | nil => rfl
  | cons step rest ih =>
    obtain ⟨host, action⟩ := step
    calc
      ((c.act host action).run rest).loadCount =
          (c.act host action).loadCount + ((c.act host action).runLoads rest).length := ih _
      _ = c.loadCount + (c.actionLoads host action).length +
          ((c.act host action).runLoads rest).length := by rw [loadCount_act]
      _ = c.loadCount + (c.runLoads ((host, action) :: rest)).length := by
        rw [runLoads, List.length_append, Nat.add_assoc]

/-! What is kept -/

def Lasting (history : List (Host × Action)) : Prop :=
  ∀ step ∈ history, step.2 ≠ .reset

theorem facility?_act {action : Action} (h : c.facility? name = some f)
    (hreset : action ≠ .reset) : (c.act host action).facility? name = some f := by
  obtain ⟨initialised, config, _, _, hact⟩ := act_of_ne_reset hreset
  unfold facility? at h ⊢
  rw [hact]
  change (c.facilities ++ _).lookup name = some f
  rw [List.lookup_append, h, Option.some_or]

/-- A facility stays as it is until the next reset. -/
theorem facility?_run {history : List (Host × Action)} (h : c.facility? name = some f)
    (hlasting : Lasting history) : (c.run history).facility? name = some f := by
  refine run_induction (P := fun c => c.facility? name = some f) h ?_
  intro step hstep c hkept
  exact facility?_act hkept (hlasting step hstep)

theorem mem_actionLoads {l : Load} {action : Action} (h : l ∈ c.actionLoads host action) :
    ∃ schema, action = .mappings l.name schema ∧ l ∈ c.mappingLoads host l.name := by
  cases action with
  | mappings facility schema =>
    have hname : l.name = facility := (mem_mappingLoads h).1
    rw [hname]
    exact ⟨schema, rfl, h⟩
  | init => cases h
  | reset => cases h
  | setRoot root => cases h
  | setVersion version => cases h

/-- What is kept after an action was kept before, or the action has loaded it. -/
theorem facility?_of_act {action : Action} (h : (c.act host action).facility? name = some f) :
    c.facility? name = some f ∧ action ≠ .reset ∨
      ∃ schema l, action = .mappings name schema ∧ l ∈ c.mappingLoads host name ∧
        l.result = .ok f := by
  by_cases hreset : action = .reset
  · rw [hreset] at h
    cases h
  · obtain ⟨initialised, config, _, _, hact⟩ := act_of_ne_reset hreset
    rw [hact] at h
    unfold facility? at h
    change (c.facilities ++ (c.actionLoads host action).flatMap Load.stored).lookup name =
      some f at h
    rw [List.lookup_append, Option.or_eq_some_iff] at h
    rcases h with hold | ⟨_, hnew⟩
    · exact Or.inl ⟨hold, hreset⟩
    · right
      obtain ⟨before, after, hsplit, _⟩ := List.lookup_eq_some_iff.mp hnew
      have hmem : (name, f) ∈ (c.actionLoads host action).flatMap Load.stored := by
        rw [hsplit]
        exact List.mem_append_right _ List.mem_cons_self
      obtain ⟨l, hl, hstored⟩ := List.mem_flatMap.mp hmem
      obtain ⟨rfl, hresult⟩ := Load.mem_stored.mp hstored
      obtain ⟨schema, haction, hload⟩ := mem_actionLoads hl
      exact ⟨schema, l, haction, hload, hresult⟩

def HasLoaded (c : Catalog) (history : List (Host × Action)) (name : String) (f : Facility) : Prop :=
  ∃ before host schema after l, history = before ++ (host, .mappings name schema) :: after ∧
    l ∈ (c.run before).mappingLoads host name ∧ l.result = .ok f ∧ Lasting after

/-- What is kept after a run was kept before it all along, or the run has loaded
it. -/
theorem facility?_of_run {history : List (Host × Action)}
    (h : (c.run history).facility? name = some f) :
    c.facility? name = some f ∧ Lasting history ∨ c.HasLoaded history name f := by
  induction history generalizing c with
  | nil => exact Or.inl ⟨h, List.forall_mem_nil _⟩
  | cons step rest ih =>
    obtain ⟨host, action⟩ := step
    rcases ih h with ⟨hkept, hlasting⟩ | ⟨before, later, schema, after, l, rfl, hl, hresult, hafter⟩
    · rcases facility?_of_act hkept with ⟨hold, hreset⟩ | ⟨schema, l, rfl, hl, hresult⟩
      · exact Or.inl ⟨hold, List.forall_mem_cons.mpr ⟨hreset, hlasting⟩⟩
      · exact Or.inr ⟨[], host, schema, rest, l, rfl, hl, hresult, hlasting⟩
    · exact Or.inr ⟨(host, action) :: before, later, schema, after, l, rfl, hl, hresult, hafter⟩

/-- Asking for mappings when a load is made: the catalog is made ready, keeps what
the load gives, and answers from its result. -/
theorem mappings_of_load (schema : String) {l : Load} (hl : l ∈ c.mappingLoads host name) :
    ∃ ready, c.init host = .ok ready ∧
      c.mappings host name schema =
        (ready.keep [l], l.result.mapError .configuration >>= fun f =>
          (f.select name schema).mapError .lookup) := by
  obtain ⟨hname, ⟨ready, hinit⟩, _⟩ := mem_mappingLoads_iff.mp hl
  have hready : l ∈ ready.loads host name := by
    unfold mappingLoads at hl
    rw [hname, hinit] at hl
    exact hl
  refine ⟨ready, hinit, ?_⟩
  rw [mappings_eq, hname, hinit]
  simp only [loads_eq_of_mem hready, supply_of_mem_loads hready]

/-- Asking for mappings of a facility that is kept: nothing changes, and the files
have no say in the answer. -/
theorem mappings_of_kept (host : Host) (schema : String) (hname : checkName name = .ok ())
    (h : c.facility? name = some f) :
    c.mappings host name schema = (c, (f.select name schema).mapError .lookup) := by
  have hready : c.isReady = true := by
    unfold isReady
    cases hfacilities : c.facilities with
    | nil => simp [facility?, hfacilities] at h
    | cons first rest => simp
  have hloads : c.loads host name = [] := by
    unfold loads
    rw [h]
  have hsupply : c.supply host name = .ok f := by
    unfold supply
    rw [h]
  rw [mappings_eq, hname, init_of_isReady hready]
  simp only [hloads, hsupply, keep_nil]
  rfl

/-- The facility of a load that succeeds is kept. -/
theorem facility?_of_load (schema : String) {l : Load} (hl : l ∈ c.mappingLoads host name)
    (hresult : l.result = .ok f) :
    (c.act host (.mappings name schema)).facility? name = some f := by
  obtain ⟨ready, hinit, hmappings⟩ := mappings_of_load schema hl
  obtain ⟨_, _, hnone, _, _, rfl, _⟩ := mem_mappingLoads_iff.mp hl
  change (c.mappings host l.name schema).1.facility? l.name = some f
  rw [hmappings, eq_of_init hinit]
  unfold facility? at hnone ⊢
  simp [keep, List.lookup_append, hnone, Load.stored, hresult]

/-- Whatever a run loads and does not forget is kept. -/
theorem facility?_of_hasLoaded {history : List (Host × Action)} (h : c.HasLoaded history name f) :
    (c.run history).facility? name = some f := by
  obtain ⟨before, host, schema, after, l, rfl, hl, hresult, hafter⟩ := h
  have hkept := facility?_run (facility?_of_load schema hl hresult) hafter
  rw [run_append]
  exact hkept

/-! Loads that fail -/

theorem isReady_of_init {ready : Catalog} (h : c.init host = .ok ready) :
    ready.isReady = true := by
  rcases init_eq_ok.mp h with ⟨hready, rfl⟩ | ⟨_, _, _, _, rfl⟩
  · exact hready
  · rfl

/-- A load that fails is counted, and the catalog is ready; nothing else changes. -/
theorem mappings_of_failed_load (schema : String) {l : Load} {e : ConfigurationError}
    (hl : l ∈ c.mappingLoads host name) (hresult : l.result = .error e) :
    ∃ next, c.mappings host name schema = (next, .error (.configuration e)) ∧
      next = { c with initialised := next.initialised, loadCount := c.loadCount + 1 } ∧
      next.isReady = true := by
  obtain ⟨ready, hinit, hmappings⟩ := mappings_of_load schema hl
  have hkeep : ready.keep [l] = { ready with loadCount := ready.loadCount + 1 } := by
    simp [keep, Load.stored, hresult]
  rw [hkeep, hresult] at hmappings
  have hready : ready.isReady = true := isReady_of_init hinit
  refine ⟨_, hmappings, ?_, hready⟩
  rw [eq_of_init hinit]

theorem isReady_act {action : Action} (h : c.isReady = true) (hreset : action ≠ .reset) :
    (c.act host action).isReady = true := by
  obtain ⟨initialised, config, hinitialised, _, hact⟩ := act_of_ne_reset hreset
  rw [hact]
  unfold isReady at h ⊢
  rcases Bool.or_eq_true_iff.mp h with hbefore | hkept
  · simp [hinitialised hbefore]
  · have hne : c.facilities ≠ [] := by simpa using hkept
    simp [keep, hne]

theorem isReady_run {history : List (Host × Action)} (h : c.isReady = true)
    (hlasting : Lasting history) : (c.run history).isReady = true := by
  refine run_induction (P := fun c => c.isReady = true) h ?_
  intro step hstep c hready
  exact isReady_act hready (hlasting step hstep)

theorem isSome_root_act (host : Host) (action : Action) (h : c.config.root.isSome = true) :
    (c.act host action).config.root.isSome = true := by
  by_cases hreset : action = .reset
  · rw [hreset]
    exact h
  · obtain ⟨_, config, _, hroot, hact⟩ := act_of_ne_reset hreset
    rw [hact]
    exact hroot h

/-- A root is never taken away. -/
theorem isSome_root_run (history : List (Host × Action)) (h : c.config.root.isSome = true) :
    (c.run history).config.root.isSome = true := by
  refine run_induction (P := fun c => c.config.root.isSome = true) h ?_
  intro step _ c hroot
  exact isSome_root_act step.1 step.2 hroot

/-- A facility that is not kept and not asked for is not kept afterwards. -/
theorem facility?_run_eq_none {history : List (Host × Action)} (h : c.facility? name = none)
    (hnot : ∀ step ∈ history, ∀ schema, step.2 ≠ .mappings name schema) :
    (c.run history).facility? name = none := by
  cases hafter : (c.run history).facility? name with
  | none => rfl
  | some f =>
    rcases facility?_of_run hafter with ⟨hbefore, _⟩ | ⟨before, host, schema, after, l, rfl, _⟩
    · rw [h] at hbefore
      cases hbefore
    · have hmem : (host, Action.mappings name schema) ∈
          before ++ (host, .mappings name schema) :: after :=
        List.mem_append_right before List.mem_cons_self
      exact absurd rfl (hnot _ hmem schema)

/-- After a load that fails, the next time that the facility is asked for a load is
made with the settings of that time, provided that the catalog can be made ready;
without a reset in between it can. -/
theorem mappingLoads_after_failed_load (schema : String) {l : Load} {e : ConfigurationError}
    (hl : l ∈ c.mappingLoads host name) (hresult : l.result = .error e)
    {later : List (Host × Action)}
    (hnot : ∀ step ∈ later, ∀ other, step.2 ≠ .mappings name other) {again : Host}
    (hready : Lasting later ∨
      ∃ ready, (((c.mappings host name schema).1).run later).init again = .ok ready) :
    ∃ root, (((c.mappings host name schema).1).run later).config.root = some root ∧
      (((c.mappings host name schema).1).run later).mappingLoads again name =
        [⟨again, root, name, (((c.mappings host name schema).1).run later).config.version⟩] := by
  obtain ⟨hname, _, hnone, hroot, _⟩ := mem_mappingLoads_iff.mp hl
  obtain ⟨next, hmappings, hnext, hnextReady⟩ := mappings_of_failed_load schema hl hresult
  rw [hmappings] at hready ⊢
  change ∃ root, (next.run later).config.root = some root ∧ _
  have hnone : (next.run later).facility? name = none := by
    refine facility?_run_eq_none ?_ hnot
    rw [hnext]
    exact hnone
  have hsome : (next.run later).config.root.isSome = true := by
    refine isSome_root_run later ?_
    rw [hnext]
    exact Option.isSome_of_eq_some hroot
  obtain ⟨root, hroot⟩ := Option.isSome_iff_exists.mp hsome
  have hinit : ∃ ready, (next.run later).init again = .ok ready := by
    rcases hready with hlasting | hready
    · exact ⟨_, init_of_isReady (isReady_run hnextReady hlasting)⟩
    · exact hready
  refine ⟨root, hroot, ?_⟩
  exact mappingLoads_eq_of_mem
    (mem_mappingLoads_iff.mpr ⟨hname, hinit, hnone, hroot, rfl, rfl, rfl⟩)

/-- No action loads a facility that is kept. -/
theorem name_ne_of_mem_actionLoads {action : Action} {l : Load} (h : c.facility? name = some f)
    (hl : l ∈ c.actionLoads host action) : l.name ≠ name := by
  rintro rfl
  obtain ⟨_, _, hload⟩ := mem_actionLoads hl
  obtain ⟨_, _, hnone, _⟩ := mem_mappingLoads_iff.mp hload
  rw [h] at hnone
  cases hnone

/-- An answer with mappings stays the same until the next reset. -/
theorem mappings_after_ok {mappings : SchemaMappings}
    (h : (c.mappings host name schema).2 = .ok mappings) {later : List (Host × Action)}
    (hlasting : Lasting later) (again : Host) :
    (((c.mappings host name schema).1.run later).mappings again name schema).2 =
      .ok mappings := by
  obtain ⟨hname, f, hkept, hselect⟩ := select_of_mappings h
  rw [mappings_of_kept again schema hname (facility?_run hkept hlasting)]
  exact mapError_eq_ok.mpr hselect

def reached (config : Config) (history : List (Host × Action)) : Catalog :=
  (ofConfig config).run history

theorem checkName_of_reached {config : Config} {history : List (Host × Action)}
    (h : (reached config history).facility? name = some f) : checkName name = .ok () := by
  rcases facility?_of_run h with ⟨hnew, _⟩ | ⟨_, _, _, _, l, _, hl, _⟩
  · cases hnew
  · exact (mem_mappingLoads_iff.mp hl).1

/-- After any run on files that change: (1) a facility is kept if and only if a load
since the last reset has given it, and then it is whole; (2) a load that fails
changes nothing but the count and the mark, and the next time that the facility is
asked for a load is made again; (3) a facility that is kept is never loaded, and it
answers without the files; (4) mappings that have been answered are answered until
the next reset; (5) the count is the number of loads that were made. -/
theorem reached_retains (config : Config) (history : List (Host × Action)) :
    (∀ name f, (reached config history).facility? name = some f ↔
      (ofConfig config).HasLoaded history name f) ∧
    (∀ name f, (reached config history).facility? name = some f →
      f.name = name ∧ f.schemas.map Prod.fst = f.manifest.schemas.map Prod.fst) ∧
    (∀ host name schema l e, l ∈ (reached config history).mappingLoads host name →
      l.result = .error e →
        ∃ next, (reached config history).mappings host name schema =
            (next, .error (.configuration e)) ∧
          next.facilities = (reached config history).facilities ∧
          next.config = (reached config history).config ∧
          ∀ later, (∀ step ∈ later, ∀ other, step.2 ≠ .mappings name other) →
            ∀ again, (Lasting later ∨ ∃ ready, (next.run later).init again = .ok ready) →
              ∃ root, (next.run later).config.root = some root ∧
                (next.run later).mappingLoads again name =
                  [⟨again, root, name, (next.run later).config.version⟩]) ∧
    (∀ name f, (reached config history).facility? name = some f → ∀ host,
      (∀ action, ∀ l ∈ (reached config history).actionLoads host action, l.name ≠ name) ∧
        ∀ schema, (reached config history).mappings host name schema =
          (reached config history, (f.select name schema).mapError .lookup)) ∧
    (∀ host name schema mappings,
      ((reached config history).mappings host name schema).2 = .ok mappings →
        ∀ later, Lasting later → ∀ again,
          ((((reached config history).mappings host name schema).1.run later).mappings
            again name schema).2 = .ok mappings) ∧
    (reached config history).loadCount = ((ofConfig config).runLoads history).length := by
  refine ⟨?_, ?_, ?_, ?_, ?_, ?_⟩
  · intro name f
    constructor
    · intro h
      rcases facility?_of_run h with ⟨hnew, _⟩ | hloaded
      · cases hnew
      · exact hloaded
    · exact facility?_of_hasLoaded
  · intro name f h
    rcases facility?_of_run h with ⟨hnew, _⟩ | ⟨_, _, _, _, l, _, hl, hresult, _⟩
    · cases hnew
    · obtain ⟨_, _, _, _, _, rfl, _⟩ := mem_mappingLoads_iff.mp hl
      exact Facility.names_of_load hresult
  · intro host name schema l e hl hresult
    obtain ⟨next, hmappings, hnext, _⟩ := mappings_of_failed_load schema hl hresult
    refine ⟨next, hmappings, by rw [hnext], by rw [hnext], ?_⟩
    intro later hnot again hready
    have hnextEq : ((reached config history).mappings host name schema).1 = next := by
      rw [hmappings]
    rw [← hnextEq] at hready ⊢
    exact mappingLoads_after_failed_load schema hl hresult hnot hready
  · intro name f h host
    refine ⟨fun action l hl => name_ne_of_mem_actionLoads h hl, fun schema => ?_⟩
    exact mappings_of_kept host schema (checkName_of_reached h) h
  · intro host name schema mappings h later hlasting again
    exact mappings_after_ok h hlasting again
  · exact (loadCount_run _ history).trans (Nat.zero_add _)

def halfWritten : Host :=
  .ofFindings ⟨"/h"⟩
    [(⟨"/r"⟩, .directory),
     (⟨"/r/F/1/mappings.cfg.json"⟩, .file "\x7b\"m\":\x7b\"mappings\":\"a\"\x7d\x7d")]

def mended : Host :=
  .ofFindings ⟨"/h"⟩
    [(⟨"/r"⟩, .directory),
     (⟨"/r/F/1/mappings.cfg.json"⟩, .file "\x7b\"m\":\x7b\"mappings\":\"a\"\x7d\x7d"),
     (⟨"/r/F/1/a"⟩, .file "[\x7b\"key\":\"k\",\"type\":\"VALUE\",\"value\":\"v\"\x7d]")]

def rooted : Config :=
  ⟨some ⟨"/r"⟩, "1"⟩

def askedTwice : List (Host × Action) :=
  [(halfWritten, .mappings "F" "m"), (mended, .mappings "F" "m")]

/-- The first load fails and is made again; the second is kept, and it still answers
when the rules are gone. -/
theorem reached_retains_mended :
    (∃ next e, (reached rooted []).mappings halfWritten "F" "m" =
        (next, .error (.configuration e)) ∧ next.facilities = [] ∧
        ∃ root, (next.run []).mappingLoads mended "F" = [⟨mended, root, "F", "1"⟩]) ∧
      (∃ f mappings, (reached rooted askedTwice).facility? "F" = some f ∧
        (reached rooted askedTwice).mappings halfWritten "F" "m" =
          (reached rooted askedTwice, .ok mappings)) ∧
      (reached rooted askedTwice).loadCount = 2 := by
  obtain ⟨_, _, hfailed, _⟩ := reached_retains rooted []
  obtain ⟨_, _, _, hkept, _, hcount⟩ := reached_retains rooted askedTwice
  refine ⟨?_, ?_, hcount.trans (by rfl)⟩
  · cases hresult : Load.result ⟨halfWritten, ⟨"/r"⟩, "F", "1"⟩ with
    | ok f =>
      have hfault : (Load.result ⟨halfWritten, ⟨"/r"⟩, "F", "1"⟩).toOption.isSome = false := by rfl
      rw [hresult] at hfault
      cases hfault
    | error e =>
      have hload : (⟨halfWritten, ⟨"/r"⟩, "F", "1"⟩ : Load) ∈
          (reached rooted []).mappingLoads halfWritten "F" := List.mem_singleton_self _
      obtain ⟨next, hmappings, hfacilities, hconfig, hretry⟩ :=
        hfailed halfWritten "F" "m" _ e hload hresult
      obtain ⟨root, _, hloads⟩ := hretry [] (List.forall_mem_nil _) mended
        (Or.inl (List.forall_mem_nil _))
      refine ⟨next, e, hmappings, hfacilities, root, ?_⟩
      rw [hloads]
      change [(⟨mended, root, "F", next.config.version⟩ : Load)] = _
      rw [hconfig]
      rfl
  · have hsome : ((reached rooted askedTwice).facility? "F").isSome = true := by rfl
    obtain ⟨f, hf⟩ := Option.isSome_iff_exists.mp hsome
    have hselect : ((reached rooted askedTwice).facility? "F").map (fun f =>
        (f.select "F" "m").toOption.isSome) = some true := by rfl
    rw [hf] at hselect
    cases hmappings : f.select "F" "m" with
    | error fault => simp [hmappings, Except.toOption] at hselect
    | ok mappings =>
      refine ⟨f, mappings, hf, ?_⟩
      rw [(hkept "F" f hf halfWritten).2 "m", hmappings]
      rfl

end Catalog

end SignalMap
