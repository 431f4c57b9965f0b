import SignalMap.Config.Reader
import SignalMap.Environment
import SignalMap.Host

/-!
Where settings come from. They are read from a file, which may be missing, and
the environment goes over what the file says.
-/

namespace SignalMap

namespace Config

inductive LoadFault where
  | unreadable (path : FilePath) (fault : FileFault)
  | unparsable (path : FilePath) (fault : TextFault Place)
  deriving DecidableEq

namespace LoadFault

def message : LoadFault → String
  | unreadable path _ => s!"failed to read {path.text}"
  | unparsable path _ => s!"failed to parse {path.text}"

def cause : LoadFault → String
  | unreadable _ fault => fault.message
  | unparsable _ fault => fault.message

def locatedCause : LoadFault → String
  | unreadable _ fault => fault.message
  | unparsable _ fault => fault.locatedMessage

end LoadFault

/-- The settings of a file; a file that is not there leaves all as standard. -/
def ofFile (host : Host) (path : FilePath) : Except LoadFault Config :=
  if !host.isPresent path then .ok standard
  else match host.read path with
    | .error fault => .error (.unreadable path fault)
    | .ok text => (parse host.home text).mapError (.unparsable path)

def override (env : Environment) (c : Config) : Config where
  root := match env.nonblank? "JSON_MAPPING_DIR" with
    | some root => some (FilePath.expandTilde env.home root)
    | none => c.root
  version := match env.nonblank? "JSON_MAPPING_DD_VERSION" with
    | some version => Text.trim version
    | none => c.version

def userDirectory (env : Environment) : FilePath :=
  match env.lookup "XDG_CONFIG_HOME" with
  | some text => if FilePath.isAbsolute ⟨text⟩ then ⟨text⟩ else env.home.join ".config"
  | none => env.home.join ".config"

def defaultPath (env : Environment) : FilePath :=
  match env.nonblank? "JSON_MAPPING_CONFIG" with
  | some path => FilePath.expandTilde env.home path
  | none => ((userDirectory env).join "jsonmap").join "config.json"

def load (host : Host) (env : Environment) : Except LoadFault Config :=
  (ofFile host (defaultPath env)).map (override env)

end Config

end SignalMap
