import SignalMap.Json.Basic
import SignalMap.Request

/-!
The context of a resolution: what the request says, as rules see it. The fields
of the request hide globals of the same names.
-/

namespace SignalMap

structure Context where
  facility : String
  schema : String
  key : String
  requestPath : String
  indices : List Nat
  signal : SignalType
  version : String
  experiment : Option String
  shot : Option Int
  run : Option Int

namespace Context

def ofRequest (r : Request) (p : NormalizedPath) (version : String) : Context where
  facility := r.facility
  schema := p.schema
  key := p.key
  requestPath := r.path
  indices := p.indices
  signal := p.signal
  version := r.version.getD version
  experiment := r.experiment
  shot := r.shot
  run := r.run

def requestFields (c : Context) : List (String × Json) :=
  [("facility", .string c.facility), ("schema", .string c.schema), ("path", .string c.requestPath),
   ("key", .string c.key), ("indices", .array (c.indices.map .ofNat)),
   ("signal_type", .string c.signal.name), ("dd_version", .string c.version),
   ("experiment", .ofOption .string c.experiment), ("shot", .ofOption .ofInt c.shot),
   ("run", .ofOption .ofInt c.run)]

def templateScope (c : Context) (globals : Fields) : Fields :=
  c.requestFields.foldl (fun scope field => scope.insert field.1 field.2) globals

end Context

end SignalMap
