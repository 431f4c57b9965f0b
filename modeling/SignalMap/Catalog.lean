import SignalMap.Config.Basic
import SignalMap.MappingError

/-!
The catalog of loaded facilities. A facility is loaded when it is asked for
first and stays as it was loaded until the catalog is reset; a load that fails
leaves the catalog as it was, but for the count of loads.
-/

namespace SignalMap

structure Catalog where
  config : Config
  facilities : List (String × Facility)
  initialised : Bool
  loadCount : Nat

namespace Catalog

def ofConfig (config : Config) : Catalog := ⟨config, [], false, 0⟩

/-- Facilities that are loaded stay as they are. -/
def setRoot (root : FilePath) (c : Catalog) : Catalog :=
  { c with config := { c.config with root := some root } }

def setVersion (version : String) (c : Catalog) : Catalog :=
  { c with config := { c.config with version } }

def reset (c : Catalog) : Catalog :=
  { c with facilities := [], initialised := false }

/-- Turn to a version that a request names; what was loaded for another one is
forgotten. -/
def switchVersion (version : Option String) (c : Catalog) : Catalog :=
  match version with
  | none => c
  | some version => if version = c.config.version then c else (c.setVersion version).reset

def facility? (c : Catalog) (name : String) : Option Facility :=
  c.facilities.lookup name

def loadedNames (c : Catalog) : List String :=
  (c.facilities.map Prod.fst).mergeSort fun a b => decide (a ≤ b)

def init (host : Host) (c : Catalog) : Except ConfigurationError Catalog :=
  if c.initialised || !c.facilities.isEmpty then .ok c
  else match c.config.root with
    | none => .error ⟨.rootNotSet, none⟩
    | some root =>
      if host.isDirectory root then .ok { c with initialised := true }
      else .error ⟨.rootMissing, some root⟩

def hasDoublePoint : List Char → Bool
  | '.' :: '.' :: _ => true
  | _ :: rest => hasDoublePoint rest
  | [] => false

/-- The name of a facility is one name of a directory. -/
def checkName (name : String) : Except RequestFault Unit :=
  let trimmed := Text.trimChars name.toList
  if trimmed.isEmpty then .error .emptyFacility
  else if trimmed.contains '/' || trimmed.contains '\\' || hasDoublePoint trimmed then
    .error (.invalidFacility name)
  else .ok ()

/-- Load a facility and keep it. Every try counts. -/
def load (host : Host) (name : String) (c : Catalog) : Catalog × Except ConfigurationError Unit :=
  match c.config.root with
  | none => (c, .error ⟨.rootNotSet, none⟩)
  | some root =>
    let c := { c with loadCount := c.loadCount + 1 }
    match Facility.load host root name c.config.version with
    | .ok facility => ({ c with facilities := c.facilities ++ [(name, facility)] }, .ok ())
    | .error e => (c, .error e)

def ensureLoaded (host : Host) (name : String) (c : Catalog) :
    Catalog × Except ConfigurationError Unit :=
  if (c.facility? name).isSome then (c, .ok ()) else c.load host name

def findSchema (c : Catalog) (facility schema : String) : Except LookupFault SchemaMappings :=
  match c.facility? facility with
  | none => .error (.notLoaded facility)
  | some loaded =>
    match loaded.schema? schema with
    | none => .error (.noSchema schema facility)
    | some mappings =>
      if mappings.registry.entries.isEmpty then .error (.emptySchema schema facility)
      else .ok mappings

def mappings (host : Host) (facility schema : String) (c : Catalog) :
    Catalog × Except MappingError SchemaMappings :=
  match checkName facility with
  | .error fault => (c, .error (.invalidRequest fault))
  | .ok () =>
    match c.init host with
    | .error e => (c, .error (.configuration e))
    | .ok c =>
      match c.ensureLoaded host facility with
      | (c, .error e) => (c, .error (.configuration e))
      | (c, .ok ()) => (c, (c.findSchema facility schema).mapError .lookup)

end Catalog

end SignalMap
