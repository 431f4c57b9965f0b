import SignalMap.FilePath
import SignalMap.Json.Writer

/-!
Settings: where the mappings lie and which version of the data dictionary is
meant.
-/

namespace SignalMap

structure Config where
  root : Option FilePath
  version : String
  deriving DecidableEq

namespace Config

def standard : Config := ⟨none, "3.39.0"⟩

def fieldNames : List String := ["root_directory", "dd_version"]

def text (c : Config) : String :=
  let root := match c.root with
    | some path => JsonWriter.stringText path.text
    | none => "null"
  JsonWriter.recordText [("root_directory", root), ("dd_version", JsonWriter.stringText c.version)]

end Config

end SignalMap
