import SignalMap.Catalog

/-!
Sessions. A session keeps a catalog and a resolver; a request is normalized,
its entry is looked up, and the entry is resolved. A request that names another
version of the data dictionary than the current one makes it the current one,
and what was loaded before is forgotten.
-/

namespace SignalMap

structure Session where
  catalog : Catalog
  resolver : Resolver

structure Reply where
  requests : List FetchRequest
  result : Except MappingError Value

namespace Session

def ofConfig (config : Config) : Session := ⟨.ofConfig config, .standard⟩

def findEntry (registry : Registry) (p : NormalizedPath) (requestPath : String) :
    Except LookupFault (Entry × NormalizedPath) :=
  match registry.get? p.key with
  | some e => .ok (e, p)
  | none =>
    let shorter := do
      let q ← p.fallback?
      let e ← registry.get? q.key
      return (e, q)
    match shorter with
    | some found => .ok found
    | none => .error (.noEntry requestPath p.key p.schema)

def refused (e : MappingError) : Reply := ⟨[], .error e⟩

def reply (r : Resolver) (version : String) (request : Request) (p : NormalizedPath)
    (mappings : SchemaMappings) : Reply :=
  match findEntry mappings.registry p request.path with
  | .error fault => refused (.lookup fault)
  | .ok (e, q) =>
    let scope : Scope :=
      { context := .ofRequest request q version
        registry := mappings.registry
        globals := mappings.globals }
    let outcome := r.resolve scope e
    ⟨outcome.requests, outcome.result.mapError .transform⟩

def resolve (host : Host) (request : Request) (s : Session) : Session × Reply :=
  match request.normalize with
  | .error fault => (s, refused (.invalidRequest fault))
  | .ok p =>
    let switched := s.catalog.switchVersion request.version
    let (catalog, found) := switched.mappings host request.facility p.schema
    match found with
    | .error e => ({ s with catalog }, refused e)
    | .ok mappings =>
      ({ s with catalog }, reply s.resolver switched.config.version request p mappings)

def list (host : Host) (facility schema : String) (s : Session) :
    Session × Except MappingError (List (String × RuleKind)) :=
  let (catalog, found) := s.catalog.mappings host facility schema
  ({ s with catalog }, found.map fun mappings =>
    mappings.registry.entries.map fun e => (e.key, e.rule.kind))

end Session

end SignalMap
