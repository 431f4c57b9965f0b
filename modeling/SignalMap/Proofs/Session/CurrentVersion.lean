import Mathlib.Data.List.Induction
import SignalMap.Proofs.Session.Provenance

/-!
Sessions whose version is set only while nothing is kept. Everything that they
keep is from a manifest of the current version, after any run: a load reads the
current version, and whatever changes the version forgets what was loaded or
finds nothing.
-/

namespace SignalMap

namespace Session

variable {host : Host} {s : Session}

def Current (roots : List FilePath) (c : Catalog) : Prop :=
  ∀ name f, c.facility? name = some f →
    ∃ root ∈ roots, f.manifest.path = Manifest.location root name c.config.version

theorem current_of_empty {roots : List FilePath} {c : Catalog} (h : c.facilities = []) :
    Current roots c := by
  intro name f hkept
  simp [Catalog.facility?, h] at hkept

theorem current_supply {roots : List FilePath} {c : Catalog} {name : String} {f : Facility}
    (h : Current roots c) (hroots : ∀ root, c.config.root = some root → root ∈ roots)
    (hsupply : c.supply host name = .ok f) :
    ∃ root ∈ roots, f.manifest.path = Manifest.location root name c.config.version := by
  unfold Catalog.supply at hsupply
  cases hfound : c.facility? name with
  | some g =>
    rw [hfound] at hsupply
    cases hsupply
    exact h name f hfound
  | none =>
    rw [hfound] at hsupply
    cases hroot : c.config.root with
    | none => simp [hroot] at hsupply
    | some root =>
      rw [hroot] at hsupply
      exact ⟨root, hroots root hroot, Facility.path_of_load hsupply⟩

theorem current_mappings {roots : List FilePath} {c : Catalog} (name schema : String)
    (h : Current roots c) (hroots : ∀ root, c.config.root = some root → root ∈ roots) :
    Current roots (c.mappings host name schema).1 := by
  intro other f hkept
  rw [Catalog.config_mappings]
  rcases Catalog.fst_mappings host name schema c with ⟨hsame, _⟩ | ⟨ready, hinit, _, hafter⟩
  · rw [hsame] at hkept
    exact h other f hkept
  · rw [hafter] at hkept
    rcases Catalog.facility?_of_keep_loads hkept with hold | ⟨rfl, hnew⟩
    · rw [Catalog.eq_of_init hinit] at hold
      exact h other f hold
    · rw [Catalog.supply_of_init hinit] at hnew
      exact current_supply h hroots hnew

theorem current_switchVersion {roots : List FilePath} {c : Catalog} (version : Option String)
    (h : Current roots c) : Current roots (c.switchVersion version) := by
  rcases Catalog.switchVersion_cases version c with hsame | ⟨next, _, _, hnext⟩
  · rw [hsame]
    exact h
  · rw [hnext]
    exact current_of_empty rfl

theorem current_act {roots : List FilePath} {action : Action} (h : Current roots s.catalog)
    (hroots : ∀ root, s.catalog.config.root = some root → root ∈ roots)
    (hempty : ∀ version, action = .setVersion version → s.catalog.facilities = []) :
    Current roots (s.act host action).catalog := by
  cases action with
  | setRoot root => exact h
  | setVersion version => exact current_of_empty (hempty version rfl)
  | call call =>
    cases call with
    | list facility schema => exact current_mappings facility schema h hroots
    | reset => exact current_of_empty rfl
    | init =>
      change Current roots (s.catalog.act host .init)
      cases hinit : s.catalog.init host with
      | error e => simpa only [Catalog.act, hinit] using h
      | ok ready =>
        simp only [Catalog.act, hinit]
        rw [Catalog.eq_of_init hinit]
        exact h
    | resolve request =>
      change Current roots (s.resolve host request).1.catalog
      cases hpath : request.normalize with
      | error fault =>
        rw [resolve_of_refused hpath]
        exact h
      | ok p =>
        rw [resolve_of_normalized hpath]
        have hturned := current_switchVersion request.version h
        refine current_mappings request.facility p.schema hturned ?_
        rw [Catalog.config_switchVersion]
        exact hroots

theorem current_mono {roots more : List FilePath} {c : Catalog} (h : Current roots c)
    (hmore : ∀ root ∈ roots, root ∈ more) : Current more c := by
  intro name f hkept
  obtain ⟨root, hroot, hplace⟩ := h name f hkept
  exact ⟨root, hmore root hroot, hplace⟩

theorem roots_append (config : Config) (first rest : List (Host × Action)) :
    roots config (first ++ rest) =
      roots config first ++ rest.filterMap fun step => step.2.root? := by
  unfold roots
  rw [List.filterMap_append, List.append_assoc]

def SetsWhenEmpty (config : Config) (resolver : Resolver) (history : List (Host × Action)) : Prop :=
  ∀ before host version after, history = before ++ (host, .setVersion version) :: after →
    ((start config resolver).run before).catalog.facilities = []

theorem current_run {config : Config} {resolver : Resolver} {history : List (Host × Action)}
    (hempty : SetsWhenEmpty config resolver history) :
    Current (roots config history) ((start config resolver).run history).catalog := by
  induction history using List.reverseRecOn with
  | nil => exact current_of_empty rfl
  | append_singleton before step ih =>
    obtain ⟨host, action⟩ := step
    have hbefore : Current (roots config before)
        ((start config resolver).run before).catalog := by
      refine ih ?_
      intro first other version after hsplit
      refine hempty first other version (after ++ [(host, action)]) ?_
      rw [hsplit, List.append_assoc, List.cons_append]
    rw [run_append, roots_append]
    refine current_act (current_mono hbefore ?_) ?_ ?_
    · intro root hroot
      exact List.mem_append_left _ hroot
    · intro root hroot
      exact List.mem_append_left _ ((accounts_run config resolver before).configured root hroot)
    · rintro version rfl
      exact hempty before host version [] rfl

/-- Nothing is stale if the version was only set while no facility was kept. -/
theorem not_stale_of_setsWhenEmpty {config : Config} {resolver : Resolver}
    {history : List (Host × Action)} (hempty : SetsWhenEmpty config resolver history)
    (facility version : String) : ¬ Stale config resolver history facility version := by
  rintro ⟨rfl, l, hl, rfl, ⟨f, hresult⟩, happart⟩
  have hkept := (accounts_run config resolver history).facility?_eq_some_iff.mpr
    ⟨l, hl, rfl, hresult⟩
  obtain ⟨root, hroot, hplace⟩ := current_run hempty l.name f hkept
  exact happart root hroot ((Load.path_of_result hresult).symm.trans hplace)

end Session

end SignalMap
