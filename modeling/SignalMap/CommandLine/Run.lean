import SignalMap.CommandLine.Arguments
import SignalMap.Config.Load
import SignalMap.Session

/-!
Runs of the program. A run is a report: what is printed, what is complained
about, and a status, which is zero for success, one for a failure, and two when
the arguments make no command.
-/

namespace SignalMap.CommandLine

structure Report where
  status : Nat
  output : String
  complaint : String
  deriving DecidableEq

namespace Report

def success (output : String) : Report := ⟨0, output, ""⟩

def indent (width : Nat) (text : String) : String :=
  let margin := List.replicate width ' '
  String.ofList (text.toList.flatMap fun c => if c = '\n' then '\n' :: margin else [c])

def causeLinesFrom (position : Nat) : List String → List String
  | [] => []
  | cause :: rest =>
    ("    " ++ toString position ++ ": " ++ indent 7 cause) :: causeLinesFrom (position + 1) rest

def causeLines : List String → List String
  | [cause] => ["    " ++ indent 4 cause]
  | causes => causeLinesFrom 0 causes

def failure (goal : String) (causes : List String) : Report :=
  let lines := ["Error: " ++ goal, "", "Caused by:"] ++ causeLines causes
  ⟨1, "", String.intercalate "\n" lines ++ "\n"⟩

end Report

def versionText : String := "jsonmap 0.1.0\n"

def usageText : String :=
  String.intercalate "\n"
    ["Usage: jsonmap [OPTIONS] resolve FACILITY PATH",
     "       jsonmap [OPTIONS] list FACILITY SCHEMA",
     "",
     "Options:",
     "      --root DIR            where the mappings lie",
     "      --dd-version VERSION  which version of the data dictionary is meant",
     "  -i, --index N             the next index (resolve; may be repeated)",
     "      --shot N              the number of the shot (resolve)",
     "      --run N               the number of the run (resolve)",
     "      --experiment NAME     the experiment (resolve)",
     "  -h, --help                print this text",
     "  -V, --version             print the version",
     ""]

def Stop.report : Stop → Report
  | .version => .success versionText
  | .help => .success usageText
  | .misuse => ⟨2, "", usageText⟩

def Overrides.apply (o : Overrides) (c : Config) : Config where
  root := match o.root with
    | some root => some ⟨root⟩
    | none => c.root
  version := o.version.getD c.version

def listLine (key : String) (kind : RuleKind) : String :=
  let name := kind.name.toList
  String.ofList (name ++ List.replicate (8 - name.length) ' ' ++ [' ']) ++ key ++ "\n"

def perform (host : Host) (config : Config) : Command → Report
  | .resolve request =>
    match ((Session.ofConfig config).resolve host request).2.result with
    | .ok value => .success (value.toLines ++ "\n")
    | .error e => .failure s!"failed to resolve '{request.path}'" [e.message]
  | .list facility schema =>
    match ((Session.ofConfig config).list host facility schema).2 with
    | .ok entries => .success (String.join (entries.map fun (key, kind) => listLine key kind))
    | .error e => .failure s!"failed to list {facility}/{schema}" [e.message]

/-- The report of a run. The settings are loaded only for a command. -/
def run (host : Host) (env : Environment) (arguments : List String) : Report :=
  match parse arguments with
  | .error stop => stop.report
  | .ok (overrides, command) =>
    match Config.load host env with
    | .error fault =>
      .failure "failed to load mapping configuration" [fault.message, fault.locatedCause]
    | .ok config => perform host (overrides.apply config) command

def Command.facility : Command → String
  | .resolve request => request.facility
  | .list facility _ => facility

def lookups (host : Host) (env : Environment) (arguments : List String) : List FilePath :=
  match parse arguments with
  | .error _ => []
  | .ok (overrides, command) =>
    let settings := Config.defaultPath env
    match (Config.load host env).map overrides.apply with
    | .error _ => [settings]
    | .ok config =>
      match config.root with
      | none => [settings]
      | some root => settings :: root :: Facility.files host root command.facility config.version

end SignalMap.CommandLine
