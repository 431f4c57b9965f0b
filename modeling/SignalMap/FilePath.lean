import SignalMap.Text.Blank
import SignalMap.Text.Cut

/-!
Names of files. Nothing is looked up and nothing is simplified: joining only puts
texts together, and an absolute right side takes the place of the left.
-/

namespace SignalMap

structure FilePath where
  text : String
  deriving DecidableEq

namespace FilePath

def isAbsoluteText (cs : List Char) : Bool :=
  cs.head? == some '/'

def isAbsolute (p : FilePath) : Bool :=
  isAbsoluteText p.text.toList

/-- The characters of two paths put together, with one slash between them unless
the left one is empty or ends in a slash. -/
def joinChars (left right : List Char) : List Char :=
  if isAbsoluteText right then right
  else if left.isEmpty || left.getLast? == some '/' then left ++ right
  else left ++ '/' :: right

def join (base : FilePath) (relative : String) : FilePath :=
  ⟨String.ofList (joinChars base.text.toList relative.toList)⟩

def components (p : FilePath) : List String :=
  (Text.splitOn '/' p.text.toList).map String.ofList

def isStill (part : List Char) : Bool :=
  part == [] || part == ['.']

/-- The path without its last name and without the parts before it that do not
move it. The first part stays: it is the root, or it is where the path begins. -/
def parentChars (cs : List Char) : List Char :=
  match (Text.splitOn '/' cs).dropLast with
  | [] => []
  | first :: rest =>
    let kept := (rest.reverse.dropWhile isStill).reverse
    if first.isEmpty && kept.isEmpty then ['/']
    else List.intercalate ['/'] (first :: kept)

def parent (p : FilePath) : FilePath :=
  ⟨String.ofList (parentChars p.text.toList)⟩

/-- A tilde alone, or before a slash of either kind, stands for the home
directory. The text is trimmed first. -/
def expandTilde (home : FilePath) (text : String) : FilePath :=
  match Text.trimChars text.toList with
  | ['~'] => home
  | '~' :: '/' :: rest => ⟨String.ofList (joinChars home.text.toList rest)⟩
  | '~' :: '\\' :: rest => ⟨String.ofList (joinChars home.text.toList rest)⟩
  | trimmed => ⟨String.ofList trimmed⟩

def resolve (home base : FilePath) (relative : String) : FilePath :=
  base.join (expandTilde home relative).text

end FilePath

end SignalMap
