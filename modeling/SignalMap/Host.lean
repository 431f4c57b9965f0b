import SignalMap.FilePath

/-!
What the surroundings of a session answer: what a file holds, what is a
directory, and where the home directory is. A few paths that have been looked up
are enough to make a host.
-/

namespace SignalMap

inductive FileFault where
  | notFound
  | notDirectory
  | isDirectory
  | notText
  | nulInName
  | nameTooLong
  | unreadable (reason : String)
  deriving DecidableEq

def FileFault.message : FileFault → String
  | .notFound => "file not found"
  | .notDirectory => "Not a directory (os error 20)"
  | .isDirectory => "Is a directory (os error 21)"
  | .notText => "stream did not contain valid UTF-8"
  | .nulInName => "file name contained an unexpected NUL byte"
  | .nameTooLong => "File name too long (os error 36)"
  | .unreadable reason => reason

structure Host where
  home : FilePath
  read : FilePath → Except FileFault String
  isDirectory : FilePath → Bool
  isPresent : FilePath → Bool

inductive Finding where
  | file (text : String)
  | directory
  | fault (fault : FileFault)
  deriving DecidableEq

namespace Finding

def text : Finding → Except FileFault String
  | .file text => .ok text
  | .directory => .error .isDirectory
  | .fault f => .error f

def isPresent : Finding → Bool
  | .file _ => true
  | .directory => true
  | .fault f => f = .notText

end Finding

def Host.ofFindings (home : FilePath) (findings : List (FilePath × Finding)) : Host :=
  let find p := (findings.lookup p).getD (.fault .notFound)
  { home := home
    read := fun p => (find p).text
    isDirectory := fun p => find p = .directory
    isPresent := fun p => (find p).isPresent }

end SignalMap
