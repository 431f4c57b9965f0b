import SignalMap.Declaration.Rules
import SignalMap.Host
import SignalMap.Json.Reader
import SignalMap.Manifest
import SignalMap.Registry

/-!
Loading a facility: its manifest, and the globals and rules of every schema that
the manifest names. A load gives the whole facility or the first fault.
-/

namespace SignalMap

inductive ConfigurationFault where
  | rootNotSet
  | rootMissing
  | file (fault : FileFault)
  | notJson
  | form (fault : FormFault)
  | noSchemas
  | globalsNotObject
  | document (fault : DocumentFault)
  | duplicateKey (key : String)

def ConfigurationFault.message : ConfigurationFault → String
  | .rootNotSet => "mapping root directory is not set"
  | .rootMissing => "mapping root directory does not exist"
  | .file fault => fault.message
  | .notJson => "invalid JSON: <syntax>"
  | .form fault => fault.message
  | .noSchemas => "manifest declares no schemas"
  | .globalsNotObject => "globals file must contain a JSON object"
  | .document fault => fault.message
  | .duplicateKey key => s!"duplicate mapping key '{key}'"

structure ConfigurationError where
  fault : ConfigurationFault
  path : Option FilePath

def ConfigurationError.message (e : ConfigurationError) : String :=
  match e.path with
  | some path => s!"{path.text}: {e.fault.message}"
  | none => e.fault.message

structure SchemaMappings where
  globals : Fields
  registry : Registry

structure Facility where
  name : String
  manifest : Manifest
  schemas : List (String × SchemaMappings)

namespace Facility

def schema? (f : Facility) (name : String) : Option SchemaMappings :=
  f.schemas.lookup name

def entryCount (f : Facility) : Nat :=
  f.schemas.foldl (fun count (_, mappings) => count + mappings.registry.size) 0

/-! Loading -/

def blame {ε α : Type} (path : FilePath) (wrap : ε → ConfigurationFault) (result : Except ε α) :
    Except ConfigurationError α :=
  result.mapError fun fault => ⟨wrap fault, some path⟩

def fail {α : Type} (path : FilePath) (fault : ConfigurationFault) : Except ConfigurationError α :=
  .error ⟨fault, some path⟩

def readDocument (host : Host) (path : FilePath) : Except ConfigurationError Json := do
  let text ← blame path .file (host.read path)
  match Json.parse? text with
  | some document => return document
  | none => fail path .notJson

def loadManifest (host : Host) (path : FilePath) : Except ConfigurationError Manifest := do
  let document ← readDocument host path
  let schemas ← blame path .form (Manifest.schemasOfJson document)
  if schemas.isEmpty then fail path .noSchemas
  return { path, schemas }

def loadGlobals (host : Host) (path : FilePath) : Except ConfigurationError Fields := do
  match ← readDocument host path with
  | .object fields => return fields
  | _ => fail path .globalsNotObject

def loadFile (host : Host) (schema : String) (registry : Registry) (path : FilePath) :
    Except ConfigurationError Registry := do
  let document ← readDocument host path
  let entries ← blame path .document (Entry.ofDocument schema document)
  blame path .duplicateKey (registry.insertAll entries)

def loadFiles (host : Host) (schema : String) (registry : Registry) :
    List FilePath → Except ConfigurationError Registry
  | [] => .ok registry
  | path :: rest => do
    let registry ← loadFile host schema registry path
    loadFiles host schema registry rest

/-- The globals come first; a schema without a file of them has none. -/
def loadSchema (host : Host) (base : FilePath) (schema : String) (files : SchemaFiles) :
    Except ConfigurationError SchemaMappings := do
  let globals ← match files.globals with
    | some relative => loadGlobals host (FilePath.resolve host.home base relative)
    | none => pure []
  let paths := files.mappings.paths.map (FilePath.resolve host.home base)
  let registry ← loadFiles host schema .empty paths
  return { globals, registry }

def loadSchemas (host : Host) (base : FilePath) :
    List (String × SchemaFiles) → Except ConfigurationError (List (String × SchemaMappings))
  | [] => .ok []
  | (schema, files) :: rest => do
    let mappings ← loadSchema host base schema files
    let others ← loadSchemas host base rest
    return (schema, mappings) :: others

def load (host : Host) (root : FilePath) (name version : String) :
    Except ConfigurationError Facility := do
  let manifest ← loadManifest host (Manifest.location root name version)
  let schemas ← loadSchemas host manifest.baseDirectory manifest.schemas
  return { name, manifest, schemas }

def files (host : Host) (root : FilePath) (name version : String) : List FilePath :=
  let location := Manifest.location root name version
  match loadManifest host location with
  | .ok manifest => location :: manifest.files host.home
  | .error _ => [location]

end Facility

end SignalMap
