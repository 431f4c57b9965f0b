import SignalMap.Proofs.Catalog.Freshness
import SignalMap.Proofs.Session.Runs

/-!
Keeping facilities cannot be seen from the answers. As long as the files stay
and the settings are left to the calls, a session answers as a new session does
that starts with the version the calls have turned it to.
-/

namespace SignalMap

namespace Session

variable {host : Host} {s : Session}

theorem faithful_act (call : Call) (h : s.catalog.Faithful host) :
    (s.act host (.call call)).catalog.Faithful host := by
  cases call with
  | list facility schema => exact h.mappings facility schema
  | reset => exact Catalog.Faithful.reset s.catalog
  | init =>
    change (s.catalog.act host .init).Faithful host
    cases hinit : s.catalog.init host with
    | error e => simpa only [Catalog.act, hinit] using h
    | ok ready => simpa only [Catalog.act, hinit] using h.init hinit
  | resolve request =>
    change (s.resolve host request).1.catalog.Faithful host
    cases hpath : request.normalize with
    | error fault =>
      rw [resolve_of_refused hpath]
      exact h
    | ok p =>
      rw [resolve_of_normalized hpath]
      exact (h.switchVersion request.version).mappings request.facility p.schema

theorem faithful_run (calls : List Call) (h : s.catalog.Faithful host) :
    (s.run (callsOn host calls)).catalog.Faithful host := by
  induction calls generalizing s with
  | nil => exact h
  | cons call rest ih => exact ih (faithful_act call h)

/-- A session with a faithful catalog answers as a new session with the same
settings does. -/
theorem snd_resolve_of_faithful (request : Request) (h : s.catalog.Faithful host) :
    (s.resolve host request).2 =
      ((start s.catalog.config s.resolver).resolve host request).2 := by
  cases hpath : request.normalize with
  | error fault => rw [resolve_of_refused hpath, resolve_of_refused hpath]
  | ok p =>
    have hnew : (start s.catalog.config s.resolver).catalog.Faithful host :=
      Catalog.Faithful.of_empty rfl rfl
    have hconfig : (s.catalog.switchVersion request.version).config =
        ((start s.catalog.config s.resolver).catalog.switchVersion request.version).config := by
      rw [Catalog.config_switchVersion, Catalog.config_switchVersion]
      rfl
    -- Both sides turn to the version, and then both are as new.
    have hmappings :
        ((s.catalog.switchVersion request.version).mappings host request.facility p.schema).2 =
          (((start s.catalog.config s.resolver).catalog.switchVersion request.version).mappings
            host request.facility p.schema).2 := by
      rw [(h.switchVersion request.version).snd_mappings_eq,
        (hnew.switchVersion request.version).snd_mappings_eq, hconfig]
    rw [resolve_of_normalized hpath, resolve_of_normalized hpath]
    simp only [hmappings]
    rfl

/-- After any calls a session answers a request as a new session does whose
version is the last one that a call with a usable path has named. -/
theorem resolve_after_calls (host : Host) (config : Config) (resolver : Resolver)
    (calls : List Call) (request : Request) :
    (((start config resolver).run (callsOn host calls)).resolve host request).2 =
      ((start { config with version := (lastVersion? calls).getD config.version }
        resolver).resolve host request).2 := by
  have hstart : (start config resolver).catalog.Faithful host :=
    Catalog.Faithful.of_empty rfl rfl
  rw [snd_resolve_of_faithful request (faithful_run calls hstart), resolver_run,
    config_run_calls]
  rfl

/-- The same holds for listing. -/
theorem list_after_calls (host : Host) (config : Config) (resolver : Resolver)
    (calls : List Call) (facility schema : String) :
    (((start config resolver).run (callsOn host calls)).list host facility schema).2 =
      ((start { config with version := (lastVersion? calls).getD config.version }
        resolver).list host facility schema).2 := by
  have hstart : (start config resolver).catalog.Faithful host :=
    Catalog.Faithful.of_empty rfl rfl
  have hmappings :
      (((start config resolver).run (callsOn host calls)).catalog.mappings host facility schema).2 =
        ((start { config with version := (lastVersion? calls).getD config.version }
          resolver).catalog.mappings host facility schema).2 := by
    rw [(faithful_run calls hstart).snd_mappings_eq, config_run_calls]
    rfl
  exact congrArg (Except.map fun mappings =>
    mappings.registry.entries.map fun e => (e.key, e.rule.kind)) hmappings

end Session

end SignalMap
