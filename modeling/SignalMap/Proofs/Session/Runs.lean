import SignalMap.Proofs.Catalog.Loads
import SignalMap.Session

/-!
Runs of a session: calls, and settings that are changed between them. What a
session does to its catalog is a list of actions of the catalog, so a run of the
session is a run of the catalog; calls alone change no setting but the version,
and only to one that a request names.
-/

namespace SignalMap

namespace Catalog

def turnSteps (c : Catalog) : Option String → List Action
  | none => []
  | some version => if version = c.config.version then [] else [.setVersion version, .reset]

theorem run_turnSteps (host : Host) (version : Option String) (c : Catalog) :
    c.run ((c.turnSteps version).map (host, ·)) = c.switchVersion version := by
  cases version with
  | none => rfl
  | some version =>
    by_cases hsame : version = c.config.version
    · simp only [turnSteps, switchVersion, if_pos hsame]
      rfl
    · simp only [turnSteps, switchVersion, if_neg hsame]
      rfl

end Catalog

namespace Session

inductive Call where
  | resolve (request : Request)
  | list (facility schema : String)
  | init
  | reset

inductive Action where
  | call (call : Call)
  | setRoot (root : FilePath)
  | setVersion (version : String)

def start (config : Config) (resolver : Resolver) : Session :=
  ⟨.ofConfig config, resolver⟩

def act (host : Host) (s : Session) : Action → Session
  | .call (.resolve request) => (s.resolve host request).1
  | .call (.list facility schema) => (s.list host facility schema).1
  | .call .init => { s with catalog := s.catalog.act host .init }
  | .call .reset => { s with catalog := s.catalog.reset }
  | .setRoot root => { s with catalog := s.catalog.setRoot root }
  | .setVersion version => { s with catalog := s.catalog.setVersion version }

def run (s : Session) : List (Host × Action) → Session
  | [] => s
  | (host, action) :: rest => run (s.act host action) rest

theorem run_append (s : Session) (first rest : List (Host × Action)) :
    s.run (first ++ rest) = (s.run first).run rest := by
  induction first generalizing s with
  | nil => rfl
  | cons step first ih => exact ih (s.act step.1 step.2)

def Action.steps (c : Catalog) : Action → List Catalog.Action
  | .call (.resolve request) =>
    match request.normalize with
    | .error _ => []
    | .ok p => c.turnSteps request.version ++ [.mappings request.facility p.schema]
  | .call (.list facility schema) => [.mappings facility schema]
  | .call .init => [.init]
  | .call .reset => [.reset]
  | .setRoot root => [.setRoot root]
  | .setVersion version => [.setVersion version]

def trace (s : Session) : List (Host × Action) → List (Host × Catalog.Action)
  | [] => []
  | (host, action) :: rest =>
    (action.steps s.catalog).map (host, ·) ++ trace (s.act host action) rest

theorem resolve_of_refused {host : Host} {request : Request} {s : Session} {fault : RequestFault}
    (h : request.normalize = .error fault) :
    s.resolve host request = (s, refused (.invalidRequest fault)) := by
  unfold resolve
  rw [h]

/-- Resolving a request whose path can be used: turn to the version that it
names, ask for the mappings, and reply from them. -/
theorem resolve_of_normalized {host : Host} {request : Request} {s : Session} {p : NormalizedPath}
    (h : request.normalize = .ok p) :
    s.resolve host request =
      ({ s with
          catalog := ((s.catalog.switchVersion request.version).mappings
            host request.facility p.schema).1 },
        match ((s.catalog.switchVersion request.version).mappings
            host request.facility p.schema).2 with
        | .error e => refused e
        | .ok mappings => reply s.resolver (request.version.getD s.catalog.config.version)
            request p mappings) := by
  have hversion : (s.catalog.switchVersion request.version).config.version =
      request.version.getD s.catalog.config.version := by
    rw [Catalog.config_switchVersion]
  unfold resolve
  rw [h]
  simp only [hversion]
  cases ((s.catalog.switchVersion request.version).mappings host request.facility p.schema).2 with
  | error e => rfl
  | ok mappings => rfl

theorem resolver_act (host : Host) (s : Session) (action : Action) :
    (s.act host action).resolver = s.resolver := by
  cases action with
  | setRoot root => rfl
  | setVersion version => rfl
  | call call =>
    cases call with
    | list facility schema => rfl
    | init => rfl
    | reset => rfl
    | resolve request =>
      change (s.resolve host request).1.resolver = s.resolver
      cases hpath : request.normalize with
      | error fault => rw [resolve_of_refused hpath]
      | ok p => rw [resolve_of_normalized hpath]

theorem resolver_run (s : Session) (history : List (Host × Action)) :
    (s.run history).resolver = s.resolver := by
  induction history generalizing s with
  | nil => rfl
  | cons step rest ih => exact (ih (s.act step.1 step.2)).trans (resolver_act _ _ _)

theorem catalog_act (host : Host) (s : Session) (action : Action) :
    (s.act host action).catalog =
      s.catalog.run ((action.steps s.catalog).map (host, ·)) := by
  cases action with
  | setRoot root => rfl
  | setVersion version => rfl
  | call call =>
    cases call with
    | list facility schema => rfl
    | init => rfl
    | reset => rfl
    | resolve request =>
      change (s.resolve host request).1.catalog = _
      unfold Action.steps
      cases hpath : request.normalize with
      | error fault =>
        rw [resolve_of_refused hpath]
        simp only [hpath]
        rfl
      | ok p =>
        rw [resolve_of_normalized hpath]
        simp only [hpath, List.map_append, Catalog.run_append, Catalog.run_turnSteps]
        rfl

/-- A run of a session is a run of its catalog. -/
theorem catalog_run (s : Session) (history : List (Host × Action)) :
    (s.run history).catalog = s.catalog.run (s.trace history) := by
  induction history generalizing s with
  | nil => rfl
  | cons step rest ih =>
    obtain ⟨host, action⟩ := step
    calc
      ((s.act host action).run rest).catalog =
          (s.act host action).catalog.run ((s.act host action).trace rest) := ih _
      _ = (s.catalog.run ((action.steps s.catalog).map (host, ·))).run
          ((s.act host action).trace rest) := by rw [catalog_act]
      _ = s.catalog.run (s.trace ((host, action) :: rest)) := (Catalog.run_append _ _ _).symm

/-! The version -/

def Call.version? : Call → Option String
  | .resolve request =>
    match request.normalize with
    | .error _ => none
    | .ok _ => request.version
  | _ => none

def lastVersion? (calls : List Call) : Option String :=
  (calls.filterMap Call.version?).getLast?

/-- A call changes the version to the one that it names, and no other setting. -/
theorem config_call (host : Host) (s : Session) (call : Call) :
    (s.act host (.call call)).catalog.config =
      { s.catalog.config with version := call.version?.getD s.catalog.config.version } := by
  cases call with
  | list facility schema => exact Catalog.config_mappings host facility schema s.catalog
  | reset => rfl
  | init =>
    change (s.catalog.act host .init).config = s.catalog.config
    cases hinit : s.catalog.init host with
    | error e => simp only [Catalog.act, hinit]
    | ok ready =>
      simp only [Catalog.act, hinit]
      rw [Catalog.eq_of_init hinit]
  | resolve request =>
    change (s.resolve host request).1.catalog.config = _
    unfold Call.version?
    cases hpath : request.normalize with
    | error fault =>
      rw [resolve_of_refused hpath]
      simp only [hpath]
      rfl
    | ok p =>
      rw [resolve_of_normalized hpath]
      simp only [hpath]
      rw [Catalog.config_mappings, Catalog.config_switchVersion]

def callsOn (host : Host) (calls : List Call) : List (Host × Action) :=
  calls.map fun call => (host, .call call)

theorem config_run_calls (host : Host) (s : Session) (calls : List Call) :
    (s.run (callsOn host calls)).catalog.config =
      { s.catalog.config with
        version := (lastVersion? calls).getD s.catalog.config.version } := by
  induction calls generalizing s with
  | nil => rfl
  | cons call rest ih =>
    refine (ih (s.act host (.call call))).trans ?_
    rw [config_call]
    unfold lastVersion?
    cases hversion : call.version? with
    | none => simp [hversion]
    | some version => simp [hversion, List.getLast?_cons]

end Session

end SignalMap
