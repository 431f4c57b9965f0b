import SignalMap.Facility
import SignalMap.Resolution.Chain

/-!
The errors of a session. The kind of an error says which stage failed; an error
of the configuration spoils the session, and any other only the request.
-/

namespace SignalMap

inductive LookupFault where
  | notLoaded (facility : String)
  | noSchema (schema facility : String)
  | emptySchema (schema facility : String)
  | noEntry (path key schema : String)
  deriving DecidableEq

def LookupFault.message : LookupFault → String
  | .notLoaded facility => s!"facility '{facility}' is not loaded"
  | .noSchema schema facility => s!"no mappings for schema '{schema}' in facility '{facility}'"
  | .emptySchema schema facility =>
    s!"schema '{schema}' in facility '{facility}' has no mapping entries"
  | .noEntry path key schema => s!"no mapping for '{path}' (key '{key}' in schema '{schema}')"

inductive MappingError where
  | configuration (error : ConfigurationError)
  | lookup (fault : LookupFault)
  | transform (error : TransformError)
  | invalidRequest (fault : RequestFault)

namespace MappingError

def message : MappingError → String
  | configuration error => s!"configuration error: {error.message}"
  | lookup fault => s!"lookup error: {fault.message}"
  | transform error => s!"transform error in '{error.key}': {error.fault.message}"
  | invalidRequest fault => s!"invalid request: {fault.message}"

def isFatal : MappingError → Bool
  | configuration _ => true
  | _ => false

end MappingError

end SignalMap
