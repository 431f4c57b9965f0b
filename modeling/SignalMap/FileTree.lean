import SignalMap.Host

/-!
Trees of files in memory, which can be written to and read from like the files of
a system. A tree is a host.
-/

namespace SignalMap

inductive FileNode where
  | file (bytes : ByteArray)
  | directory (entries : List (String × FileNode))

namespace FileNode

def emptyDirectory : FileNode := .directory []

def putEntry (name : String) (node : FileNode) : List (String × FileNode) → List (String × FileNode)
  | [] => [(name, node)]
  | (n, other) :: rest =>
    if n = name then (n, node) :: rest else (n, other) :: putEntry name node rest

def entries : FileNode → List (String × FileNode)
  | .directory entries => entries
  | .file _ => []

/-- Change what stands under the names of a path, below directories that are made
where they are wanting. An empty directory is changed where nothing stands. -/
def update (change : FileNode → FileNode) (node : FileNode) : List String → FileNode
  | [] => change node
  | name :: rest =>
    let inner := (node.entries.lookup name).getD emptyDirectory
    .directory (putEntry name (inner.update change rest) node.entries)

def makeDirectory (node : FileNode) (names : List String) : FileNode :=
  node.update id names

def remove (node : FileNode) : List String → FileNode
  | [] => node
  | [name] => .directory (node.entries.filter fun (n, _) => n ≠ name)
  | name :: rest =>
    match node.entries.lookup name with
    | some inner => .directory (putEntry name (inner.remove rest) node.entries)
    | none => node

def maxNameSize : Nat := 255

def maxPathSize : Nat := 4095

def goTo (place : List String) (name : String) : List String :=
  if name = "" ∨ name = "." then place
  else if name = ".." then place.dropLast
  else place ++ [name]

def makePassed (node : FileNode) (names : List String) : FileNode :=
  let step := fun (node, place) name => (makeDirectory node (goTo place name), goTo place name)
  (names.foldl step (node, [])).1

/-- Go along the names of a path. Two points lead back to the directory above,
and the root is above itself. -/
def walk (above : List FileNode) (here : FileNode) : List String → Except FileFault FileNode
  | [] => .ok here
  | name :: rest =>
    match here with
    | .file _ => .error .notDirectory
    | .directory entries =>
      if name = "" ∨ name = "." then walk above here rest
      else if name = ".." then
        match above with
        | [] => walk [] here rest
        | parent :: others => walk others parent rest
      else if maxNameSize < name.utf8ByteSize then .error .nameTooLong
      else match entries.lookup name with
        | some inner => walk (here :: above) inner rest
        | none => .error .notFound

end FileNode

structure FileTree where
  root : FileNode
  current : FilePath

namespace FileTree

def names (t : FileTree) (p : FilePath) : List String :=
  (t.current.join p.text).components

def find (t : FileTree) (p : FilePath) : Except FileFault FileNode :=
  if p.text.isEmpty then .error .notFound
  else if p.text.toList.contains '\x00' then .error .nulInName
  else if FileNode.maxPathSize < p.text.utf8ByteSize then .error .nameTooLong
  else FileNode.walk [] t.root (t.names p)

def read (t : FileTree) (p : FilePath) : Except FileFault String := do
  match ← t.find p with
  | .directory _ => throw .isDirectory
  | .file bytes =>
    match String.fromUTF8? bytes with
    | some text => return text
    | none => throw .notText

def isDirectory (t : FileTree) (p : FilePath) : Bool :=
  match t.find p with
  | .ok (.directory _) => true
  | _ => false

def isPresent (t : FileTree) (p : FilePath) : Bool :=
  match t.find p with
  | .ok _ => true
  | .error _ => false

def write (t : FileTree) (p : FilePath) (bytes : ByteArray) : FileTree :=
  let names := t.names p
  let place := names.foldl FileNode.goTo []
  { t with root := (t.root.makePassed names.dropLast).update (fun _ => .file bytes) place }

def remove (t : FileTree) (p : FilePath) : FileTree :=
  { t with root := t.root.remove ((t.names p).foldl FileNode.goTo []) }

def host (t : FileTree) (home : FilePath) : Host where
  home := home
  read := t.read
  isDirectory := t.isDirectory
  isPresent := t.isPresent

end FileTree

end SignalMap
