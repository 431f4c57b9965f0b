import SignalMap.Proofs.Catalog.Mappings

/-!
Catalogs that keep what a new catalog would load. On files that do not change,
making ready, asking for mappings, resetting and turning to a version all leave
a catalog faithful to its settings, and a faithful catalog answers as a new
catalog with the same settings does.
-/

namespace SignalMap

namespace Catalog

structure Faithful (host : Host) (c : Catalog) : Prop where
  ready : c.isReady = true → ∃ root, c.config.root = some root ∧ host.isDirectory root = true
  kept : ∀ name f, c.facility? name = some f → (ofConfig c.config).supply host name = .ok f

namespace Faithful

variable {host : Host} {c : Catalog}

theorem of_empty (hfacilities : c.facilities = []) (hinitialised : c.initialised = false) :
    Faithful host c where
  ready := by
    intro h
    simp [isReady, hfacilities, hinitialised] at h
  kept := by
    intro name f h
    simp [facility?, hfacilities] at h

/-- A faithful catalog can be made ready if and only if a new one can, with the
same error otherwise. -/
theorem init_eq (h : Faithful host c) :
    (c.init host).map (fun _ => ()) = ((ofConfig c.config).init host).map fun _ => () := by
  have hnew : (ofConfig c.config).isReady = false := rfl
  rw [init_of_not_isReady hnew]
  cases hready : c.isReady with
  | true =>
    obtain ⟨root, hroot, hdirectory⟩ := h.ready hready
    rw [init_of_isReady hready]
    simp [ofConfig, hroot, hdirectory, Except.map]
  | false =>
    rw [init_of_not_isReady hready]
    cases hroot : c.config.root with
    | none => simp [ofConfig, hroot]
    | some root =>
      by_cases hdirectory : host.isDirectory root
      · simp [ofConfig, hroot, hdirectory, Except.map]
      · simp [ofConfig, hroot, hdirectory, Except.map]

theorem directory_of_init {ready : Catalog} (h : Faithful host c)
    (hinit : c.init host = .ok ready) :
    ∃ root, c.config.root = some root ∧ host.isDirectory root = true := by
  cases hready : c.isReady with
  | true => exact h.ready hready
  | false => exact Catalog.directory_of_init hinit hready

theorem supply_eq (name : String) (h : Faithful host c) :
    c.supply host name = (ofConfig c.config).supply host name := by
  cases hkept : c.facility? name with
  | some f =>
    rw [h.kept name f hkept]
    unfold supply
    rw [hkept]
  | none =>
    unfold supply
    rw [hkept]
    rfl

theorem init {ready : Catalog} (h : Faithful host c) (hinit : c.init host = .ok ready) :
    Faithful host ready := by
  rw [eq_of_init hinit]
  exact ⟨fun _ => h.directory_of_init hinit, h.kept⟩

theorem reset (c : Catalog) : Faithful host c.reset :=
  of_empty rfl rfl

theorem mappings (name schema : String) (h : Faithful host c) :
    Faithful host (c.mappings host name schema).1 := by
  rcases fst_mappings host name schema c with ⟨hsame, _⟩ | ⟨ready, hinit, _, hkept⟩
  · rw [hsame]
    exact h
  · rw [hkept]
    have hready := h.init hinit
    have hconfig : ready.config = c.config := by
      rw [eq_of_init hinit]
    constructor
    · intro _
      change ∃ root, ready.config.root = some root ∧ _
      rw [hconfig]
      exact h.directory_of_init hinit
    · intro other f hother
      change (ofConfig ready.config).supply host other = .ok f
      rcases facility?_of_keep_loads hother with hold | ⟨rfl, hnew⟩
      · exact hready.kept other f hold
      · exact (hready.supply_eq other).symm.trans hnew

theorem switchVersion (version : Option String) (h : Faithful host c) :
    Faithful host (c.switchVersion version) := by
  rcases switchVersion_cases version c with hsame | ⟨next, _, _, hnext⟩
  · rw [hsame]
    exact h
  · rw [hnext]
    exact reset _

/-- A faithful catalog answers as a new one does. -/
theorem snd_mappings_eq (name schema : String) (h : Faithful host c) :
    (c.mappings host name schema).2 = ((ofConfig c.config).mappings host name schema).2 := by
  rw [mappings_eq, mappings_eq]
  cases checkName name with
  | error fault => rfl
  | ok _ =>
    have hready := h.init_eq
    cases hinit : c.init host with
    | error e =>
      cases hnew : (ofConfig c.config).init host with
      | error e' =>
        rw [hinit, hnew] at hready
        cases hready
        rfl
      | ok fresh =>
        rw [hinit, hnew] at hready
        cases hready
    | ok ready =>
      cases hnew : (ofConfig c.config).init host with
      | error e' =>
        rw [hinit, hnew] at hready
        cases hready
      | ok fresh =>
        have hsupply : ready.supply host name = fresh.supply host name := by
          rw [supply_of_init hinit, h.supply_eq name, supply_of_init hnew]
        simp only [hsupply]

end Faithful

end Catalog

end SignalMap
