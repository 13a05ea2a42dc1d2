/-
Hosts: what the program needs of the system it runs on.

Commands are written against this interface only.  `World` is a host that is a value: a file tree
and what was printed, so a run of the program is a function from one world to the next.

Printing gives no answer, so it cannot fail, and a stream takes whatever is printed on it.  A
program whose output is closed early ends otherwise; that is outside of this interface, as are links
and permissions, which a file tree does not have.
-/
import WidgetLayout.FileTree

namespace WidgetLayout

/-- A system with files, two streams of text and a clock. -/
class Host (m : Type → Type) where
  /-- The content of a file. -/
  readFile : String → m (Except FileFault (List UInt8))
  /-- Replaces the content of a file, or makes the file. -/
  writeFile : String → List UInt8 → m (Except FileFault Unit)
  /-- Makes a directory and those on the way to it. -/
  makeDirectories : String → m (Except FileFault Unit)
  /-- Whether there is a directory at a path. -/
  isDirectory : String → m Bool
  /-- Whether there is anything at a path. -/
  pathExists : String → m Bool
  /-- The paths of all files below a directory, sorted by name within each directory. -/
  filesBelow : String → m (List String)
  /-- Does something after every change of a file, for as long as the host runs. -/
  watch : String → m Unit → m Unit
  /-- For how many milliseconds the program has been running, as a text. -/
  elapsed : m String
  /-- Prints a text. -/
  print : String → m Unit
  /-- Prints a text on the stream for errors. -/
  printError : String → m Unit

/-- A host as a value. -/
structure World where
  files : FileTree
  /-- What was printed. -/
  out : String
  /-- What was printed on the stream for errors. -/
  err : String
  /-- The time that the clock shows, which stands still. -/
  clock : String
deriving Inhabited

namespace World

/-- The world in which nothing was printed yet. -/
def start (files : FileTree) (clock : String) : World := ⟨files, "", "", clock⟩

instance : Host (StateM World) where
  readFile path := do return (← get).files.readFile path
  writeFile path content := do
    match (← get).files.writeFile path content with
    | .error fault => return .error fault
    | .ok files =>
      modify fun w => { w with files := files }
      return .ok ()
  makeDirectories path := do
    let (result, files) := (← get).files.makeDirectories path
    modify fun w => { w with files := files }
    return result
  isDirectory path := do return (← get).files.isDirectory path
  pathExists path := do return (← get).files.exists? path
  filesBelow path := do return (← get).files.filesBelow path
  watch _ _ := return ()
  elapsed := do return (← get).clock
  print text := modify fun w => { w with out := w.out ++ text }
  printError text := modify fun w => { w with err := w.err ++ text }

end World

end WidgetLayout
