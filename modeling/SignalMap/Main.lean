import SignalMap.CommandLine.Run

/-!
The program. It looks up the paths that the run names, in three rounds: first the
settings, then the manifest, then the files of the manifest. The run itself is
the pure function of what was found.
-/

namespace SignalMap

def directoryCode : UInt32 := 21

def longNameCode : UInt32 := 36

def lookUp (path : FilePath) : IO Finding := do
  if path.text.toList.contains '\x00' then return .fault .nulInName
  try
    let bytes ← IO.FS.readBinFile path.text
    match String.fromUTF8? bytes with
    | some text => return .file text
    | none => return .fault .notText
  catch
    | .noFileOrDirectory .. => return .fault .notFound
    | .inappropriateType _ code _ =>
      return if code = directoryCode then .directory else .fault .notDirectory
    | .invalidArgument _ code details =>
      return .fault (if code = longNameCode then .nameTooLong else .unreadable details)
    | e => return .fault (.unreadable (toString e))

def readEnvironment : IO Environment := do
  let names := ["HOME", "XDG_CONFIG_HOME", "JSON_MAPPING_CONFIG", "JSON_MAPPING_DIR",
    "JSON_MAPPING_DD_VERSION"]
  names.filterMapM fun name => do
    let value ← IO.getEnv name
    return value.map fun text => (name, text)

def gather (env : Environment) (arguments : List String) (known : List (FilePath × Finding)) :
    IO (List (FilePath × Finding)) := do
  let wanted := CommandLine.lookups (.ofFindings env.home known) env arguments
  (wanted.filter fun path => (known.lookup path).isNone).foldlM (fun known path => do
    let finding ← lookUp path
    return (path, finding) :: known) known

def runProgram (arguments : List String) : IO UInt32 := do
  let env ← readEnvironment
  let known ← gather env arguments []
  let known ← gather env arguments known
  let known ← gather env arguments known
  let report := CommandLine.run (.ofFindings env.home known) env arguments
  IO.print report.output
  IO.eprint report.complaint
  return UInt32.ofNat report.status

end SignalMap

def main (arguments : List String) : IO UInt32 :=
  SignalMap.runProgram arguments
