/-
Trees of files and directories, and what programs can do with them.

A path is followed name by name from the root, or from the directory that relative paths start at.
It leads through directories only; `.` stays and `..` goes back.  A slash at the end of a path asks
for a directory.  An operation that fails leaves the tree as it was, except that making directories
may have made some of them.

A tree has no links and no permissions.  Two names never stand for one file, a path leads to one
place only, every file can be read and written, and a disk is never full.  What is proved of trees
is proved of file systems of this kind.
-/
import WidgetLayout.Dictionary
import WidgetLayout.Error
import WidgetLayout.Path

namespace WidgetLayout

/-- A file or a directory. -/
inductive Node
  | file (content : List UInt8)
  | directory (entries : List (String × Node))
deriving Inhabited

namespace Node

/-- The entries of a directory; a file has none. -/
def entries : Node → List (String × Node)
  | .file _ => []
  | .directory entries => entries

/-- Whether a node is a directory. -/
def isDirectory : Node → Bool
  | .file _ => false
  | .directory _ => true

/-- The node that names lead to. -/
def at? : List String → Node → Option Node
  | [], node => some node
  | name :: names, node => do
    let inner ← findEntry name node.entries
    inner.at? names

/-- Puts a node where names lead to, the last of which may be new. -/
def put : Node → List String → Node → Node
  | _, [], new => new
  | node, name :: names, new =>
    let inner := (findEntry name node.entries).getD (.directory [])
    .directory (putEntry name (inner.put names new) node.entries)

/-- Sorts by name. -/
def sortByName {α : Type} (items : List (String × α)) : List (String × α) :=
  items.mergeSort fun a b => decide (a.1 ≤ b.1)

mutual

/-- The paths of the files of a node that stands at a path, by the names in each directory. -/
def files (path : String) : Node → List String
  | .file _ => [path]
  | .directory entries => (sortByName (filesOfEntries path entries)).flatMap Prod.snd

/-- The paths of the files of each entry of a directory. -/
def filesOfEntries (path : String) : List (String × Node) → List (String × List String)
  | [] => []
  | (name, node) :: rest => (name, files (Path.join path name) node) :: filesOfEntries path rest

end

end Node

/-- A tree with the directory that relative paths start at. -/
structure FileTree where
  root : Node
  home : List String
deriving Inhabited

namespace FileTree

/-- The greatest length of a name, in bytes. -/
def maxName : Nat := 255

/-- The greatest length of a path, in bytes. -/
def maxPath : Nat := 4095

/-- Splits a text at slashes. -/
def splitSlashes : List Char → List (List Char)
  | [] => [[]]
  | c :: cs =>
    if c = '/' then [] :: splitSlashes cs
    else
      match splitSlashes cs with
      | [] => [[c]]
      | piece :: pieces => (c :: piece) :: pieces

/-- The names that a path leads through. -/
def names (path : String) : List String :=
  (splitSlashes path.toList).filterMap fun piece =>
    if piece.isEmpty then none else some (String.ofList piece)

/-- Whether a path asks for a directory. -/
def endsWithSlash (path : String) : Bool := path.toList.getLast? = some '/'

/-- Where a path starts. -/
def origin (t : FileTree) (path : String) : List String :=
  if path.toList.head? = some '/' then [] else t.home

/-- Refuses what is no path at all. -/
def checkPath (path : String) : Except FileFault Unit :=
  if '\x00' ∈ path.toList then .error .zeroInName
  else if path.isEmpty then .error .notFound
  else if maxPath < path.utf8ByteSize then .error .nameTooLong
  else .ok ()

/-- Follows names from a place and says where they lead. -/
def follow (root : Node) (here : List String) : List String → Except FileFault (List String)
  | [] => .ok here
  | name :: names =>
    match root.at? here with
    | some (.directory entries) =>
      if name = "." then follow root here names
      else if name = ".." then follow root here.dropLast names
      else if maxName < name.utf8ByteSize then .error .nameTooLong
      else
        match findEntry name entries with
        | some _ => follow root (here ++ [name]) names
        | none => .error .notFound
    | _ => .error .notDirectory

/-- Where a path leads to. -/
def locate (t : FileTree) (path : String) : Except FileFault (List String) := do
  checkPath path
  let names := names path ++ if endsWithSlash path then ["."] else []
  follow t.root (t.origin path) names

/-- Where a path to something new or old leads to: a directory and a name in it. -/
def locateEntry (t : FileTree) (path : String) :
    Except FileFault (List String × Option String) := do
  checkPath path
  let names := names path
  let directory ← follow t.root (t.origin path) names.dropLast
  if (t.root.at? directory).any Node.isDirectory then
    return (directory, names.getLast?.filter fun name => name ≠ "." ∧ name ≠ "..")
  else .error .notDirectory

/-- The node that a path leads to. -/
def node (t : FileTree) (path : String) : Except FileFault Node := do
  let place ← t.locate path
  match t.root.at? place with
  | some node => .ok node
  | none => .error .notFound

/-- Whether a path leads to anything. -/
def exists? (t : FileTree) (path : String) : Bool := (t.node path).isOk

/-- Whether a path leads to a directory. -/
def isDirectory (t : FileTree) (path : String) : Bool :=
  match t.node path with
  | .ok node => node.isDirectory
  | .error _ => false

/-- The content of the file at a path. -/
def readFile (t : FileTree) (path : String) : Except FileFault (List UInt8) := do
  match ← t.node path with
  | .file content => .ok content
  | .directory _ => .error .isDirectory

/-- Puts a node into the tree. -/
def put (t : FileTree) (place : List String) (node : Node) : FileTree :=
  { t with root := t.root.put place node }

/-- Writes a file, whether it is there or not. -/
def writeFile (t : FileTree) (path : String) (content : List UInt8) :
    Except FileFault FileTree := do
  let (directory, name?) ← t.locateEntry path
  match name? with
  | none => .error .isDirectory
  | some name =>
    let place := directory ++ [name]
    if endsWithSlash path then .error .isDirectory
    else if maxName < name.utf8ByteSize then .error .nameTooLong
    else
      match t.root.at? place with
      | some (.directory _) => .error .isDirectory
      | _ => .ok (t.put place (.file content))

/-- Makes a directory that is not there. -/
def makeDirectory (t : FileTree) (path : String) : Except FileFault FileTree := do
  let (directory, name?) ← t.locateEntry path
  match name? with
  | none => .error .alreadyExists
  | some name =>
    let place := directory ++ [name]
    if maxName < name.utf8ByteSize then .error .nameTooLong
    else
      match t.root.at? place with
      | some _ => .error .alreadyExists
      | none => .ok (t.put place (.directory []))

/-- Makes the first of some directories, each of which stands in the next one, and those it
needs. -/
def makeFirst (t : FileTree) : List String → Except FileFault Unit × FileTree
  | [] => (.ok (), t)
  | path :: outer =>
    if path.isEmpty then (.ok (), t)
    else
      match t.makeDirectory path with
      | .ok t' => (.ok (), t')
      | .error .notFound =>
        match makeFirst t outer with
        | (.error fault, t') => (.error fault, t')
        | (.ok _, t') =>
          match t'.makeDirectory path with
          | .ok t'' => (.ok (), t'')
          | .error fault => (if t'.isDirectory path then .ok () else .error fault, t')
      | .error fault => (if t.isDirectory path then .ok () else .error fault, t)

/-- Makes a directory and all directories on the way to it. -/
def makeDirectories (t : FileTree) (path : String) : Except FileFault Unit × FileTree :=
  t.makeFirst ((Path.ancestors path.toList).map String.ofList)

/-- The paths of all files below a directory. -/
def filesBelow (t : FileTree) (path : String) : List String :=
  match t.node path with
  | .ok node => node.files path
  | .error _ => []

end FileTree

end WidgetLayout
