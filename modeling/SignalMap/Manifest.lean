import SignalMap.FilePath
import SignalMap.Json.Record
import SignalMap.Json.Writer

/-!
Manifests. The manifest of a facility and a version names, for every schema, the
file of its globals and the files of its rules; it lies at a place that follows
from the root, the facility and the version.
-/

namespace SignalMap

inductive MappingFiles where
  | single (path : String)
  | many (paths : List String)
  deriving DecidableEq

namespace MappingFiles

def paths : MappingFiles → List String
  | single path => [path]
  | many paths => paths

def ofJson (document : Json) : Except FormFault MappingFiles :=
  match document with
  | .string path => .ok (single path)
  | .array items =>
    match items.mapM Json.asString with
    | .ok paths => .ok (many paths)
    | .error _ => .error (.noVariant "MappingFiles")
  | _ => .error (.noVariant "MappingFiles")

def text : MappingFiles → String
  | single path => JsonWriter.stringText path
  | many paths => JsonWriter.arrayText (paths.map JsonWriter.stringText)

end MappingFiles

structure SchemaFiles where
  globals : Option String
  mappings : MappingFiles
  deriving DecidableEq

namespace SchemaFiles

def record : List (String × (Json → Except FormFault Unit)) :=
  [("globals", FormFault.checks (Json.asOptional Json.asString)),
   ("mappings", FormFault.checks MappingFiles.ofJson)]

/-- The files may be named, or listed in the order globals, mappings. -/
def ofJson : Json → Except FormFault SchemaFiles
  | .object fields => do
    Fields.check record fields
    let globals ← Fields.optional fields "globals" (Json.asOptional Json.asString) none
    let mappings ← Fields.required fields "mappings" MappingFiles.ofJson
    return { globals, mappings }
  | .array items => do
    let globals ← match items with
      | [] => pure none
      | first :: _ => Json.asOptional Json.asString first
    match items with
    | _ :: second :: rest =>
      let mappings ← MappingFiles.ofJson second
      if rest.isEmpty then return { globals, mappings }
      else throw (.wrongLength items.length "fewer elements in array")
    | _ => throw (.wrongLength 1 "struct SchemaFiles with 2 elements")
  | other => .error (.unexpected other.describe "struct SchemaFiles")

def text (f : SchemaFiles) : String :=
  JsonWriter.recordText
    [("globals", (f.globals.map JsonWriter.stringText).getD "null"), ("mappings", f.mappings.text)]

end SchemaFiles

structure Manifest where
  path : FilePath
  schemas : List (String × SchemaFiles)

namespace Manifest

def fileName : String := "mappings.cfg.json"

def location (root : FilePath) (facility version : String) : FilePath :=
  ((root.join facility).join version).join fileName

def schemasOfJson (document : Json) : Except FormFault (List (String × SchemaFiles)) := do
  let fields ← document.asFields "a map"
  fields.mapM fun (name, value) => do
    let files ← SchemaFiles.ofJson value
    return (name, files)

def baseDirectory (m : Manifest) : FilePath :=
  m.path.parent

def files (home : FilePath) (m : Manifest) : List FilePath :=
  m.schemas.flatMap fun (_, schema) =>
    (schema.globals.toList ++ schema.mappings.paths).map (FilePath.resolve home m.baseDirectory)

end Manifest

end SignalMap
