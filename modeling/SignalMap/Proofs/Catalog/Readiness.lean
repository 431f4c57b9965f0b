import SignalMap.Proofs.Catalog.Loads

/-!
Why a catalog has no facility to answer from. Either it cannot be made ready, or it
does not keep the facility and the load fails. A catalog that is ready always has a
root to load from, whatever was done to it since it was new, so there is no third
reason.
-/

namespace SignalMap

namespace Catalog

variable {host : Host} {c : Catalog} {name schema : String}

def CannotInit (host : Host) (c : Catalog) : Prop :=
  c.isReady = false ∧
    (c.config.root = none ∨ ∃ root, c.config.root = some root ∧ host.isDirectory root = false)

def LoadFails (host : Host) (name : String) (c : Catalog) : Prop :=
  c.facility? name = none ∧
    ∃ root e, c.config.root = some root ∧ Facility.load host root name c.config.version = .error e

theorem exists_init_eq_error_iff : (∃ e, c.init host = .error e) ↔ c.CannotInit host := by
  unfold CannotInit
  cases hready : c.isReady with
  | true => simp [init_of_isReady hready]
  | false =>
    rw [init_of_not_isReady hready]
    cases hroot : c.config.root with
    | none => simp
    | some root => by_cases hdirectory : host.isDirectory root <;> simp [hdirectory]

def Rooted (c : Catalog) : Prop :=
  c.isReady = true → ∃ root, c.config.root = some root

namespace Rooted

theorem ofConfig (config : Config) : Rooted (.ofConfig config) := by
  intro h
  cases h

theorem reset (c : Catalog) : Rooted c.reset := by
  intro h
  cases h

/-- What can be made ready has a root already. -/
theorem root_of_init {ready : Catalog} (h : Rooted c) (hinit : c.init host = .ok ready) :
    ∃ root, ready.config.root = some root := by
  rw [eq_of_init hinit]
  cases hready : c.isReady with
  | true => exact h hready
  | false =>
    obtain ⟨root, hroot, _⟩ := directory_of_init hinit hready
    exact ⟨root, hroot⟩

theorem act (h : Rooted c) (host : Host) (action : Action) : Rooted (c.act host action) := by
  cases action with
  | init =>
    unfold Catalog.act
    cases hinit : c.init host with
    | error e => exact h
    | ok ready => exact fun _ => h.root_of_init hinit
  | reset => exact .reset c
  | setRoot root => exact fun _ => ⟨root, rfl⟩
  | setVersion version => exact h
  | mappings facility schema =>
    change Rooted (c.mappings host facility schema).1
    rcases fst_mappings host facility schema c with ⟨hsame, _⟩ | ⟨ready, hinit, _, hkept⟩
    · rw [hsame]
      exact h
    · rw [hkept]
      intro _
      obtain ⟨root, hroot⟩ := h.root_of_init hinit
      exact ⟨root, hroot⟩

theorem run (h : Rooted c) (history : List (Host × Action)) : Rooted (c.run history) :=
  run_induction h fun step _ _ h => h.act step.1 step.2

theorem switchVersion (version : Option String) (h : Rooted c) :
    Rooted (c.switchVersion version) := by
  rcases switchVersion_cases version c with hsame | ⟨_, _, _, hnext⟩
  · rw [hsame]
    exact h
  · rw [hnext]
    exact .reset _

end Rooted

/-- With a root there is a facility to answer from unless its load fails. -/
theorem exists_supply_eq_error_iff (hroot : ∃ root, c.config.root = some root) :
    (∃ e, c.supply host name = .error e) ↔ c.LoadFails host name := by
  obtain ⟨root, hroot⟩ := hroot
  unfold supply LoadFails
  cases hkept : c.facility? name with
  | some f => simp
  | none => simp [hroot]

/-- Asking a catalog for mappings under a name that is allowed: there is a reason for
an error of the configuration, or the facility that answers is kept afterwards and the
mappings are selected from it. -/
theorem mappings_cases (hrooted : c.Rooted) (hname : checkName name = .ok ()) (schema : String) :
    (c.CannotInit host ∨ c.LoadFails host name) ∧
        (∃ e, (c.mappings host name schema).2 = .error (.configuration e)) ∨
      ¬ (c.CannotInit host ∨ c.LoadFails host name) ∧
        ∃ f, c.supply host name = .ok f ∧
          (c.mappings host name schema).1.facility? name = some f ∧
          (c.mappings host name schema).2 = (f.select name schema).mapError .lookup := by
  rw [mappings_eq, hname, ← exists_init_eq_error_iff]
  cases hinit : c.init host with
  | error e => exact Or.inl ⟨Or.inl ⟨e, rfl⟩, e, rfl⟩
  | ok ready =>
    have hloads : c.LoadFails host name ↔ ∃ e, ready.supply host name = .error e := by
      rw [exists_supply_eq_error_iff (hrooted.root_of_init hinit), eq_of_init hinit]
      rfl
    rw [hloads, ← supply_of_init hinit]
    dsimp only
    cases hsupply : ready.supply host name with
    | error e => exact Or.inl ⟨Or.inr ⟨e, rfl⟩, e, rfl⟩
    | ok f =>
      exact Or.inr ⟨by simp, f, rfl, facility?_keep_loads hsupply, rfl⟩

end Catalog

end SignalMap
