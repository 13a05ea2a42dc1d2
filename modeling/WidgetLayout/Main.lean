/-
The program on a real machine.
-/
import WidgetLayout.Program

namespace WidgetLayout

/-- Actions on the machine, with the time at which the program began. -/
abbrev Machine := ReaderT Nat IO

namespace Machine

/-- The file fault that a system error code stands for; the code may come with a minus sign. -/
def faultOfCode (code : UInt32) (text : String) : FileFault :=
  match if code.toNat < 0x80000000 then code.toNat else 0x100000000 - code.toNat with
  | 2 => .notFound
  | 17 => .alreadyExists
  | 20 => .notDirectory
  | 21 => .isDirectory
  | 36 => .nameTooLong
  | _ => .other text

/-- The file fault of a system error. -/
def faultOf (e : IO.Error) : FileFault :=
  match e with
  | .noFileOrDirectory .. => .notFound
  | .alreadyExists _ code text => faultOfCode code text
  | .inappropriateType _ code text => faultOfCode code text
  | .invalidArgument _ code text => faultOfCode code text
  | .illegalOperation code text => faultOfCode code text
  | .otherError code text => faultOfCode code text
  | e => .other e.toString

/-- Turns a system error into a file fault. -/
def guarded {α : Type} (act : IO α) : Machine (Except FileFault α) := do
  try
    return .ok (← act)
  catch e => return .error (faultOf e)

/-- Whether there is a directory at a path. -/
def isDirectoryAt (path : String) : IO Bool := do
  try
    return ← (← IO.FS.realPath path).isDir
  catch _ => return false

/-- When a file was changed last. -/
def lastChange (path : String) : IO (Option (Int × UInt32)) := do
  try
    let time := (← (← IO.FS.realPath path).metadata).modified
    return some (time.sec, time.nsec)
  catch _ => return none

/-- The paths of all files below a directory.  Links below it are neither files nor followed. -/
partial def filesBelowPath (path : String) : IO (List String) := do
  if ← isDirectoryAt path then
    let entries ← (← IO.FS.realPath path).readDir
    let kinds ← entries.toList.mapM fun e => do return (e.fileName, (← e.path.symlinkMetadata).type)
    let below ← (Node.sortByName kinds).mapM fun (name, kind) =>
      match kind with
      | .dir | .file => filesBelowPath (Path.join path name)
      | .symlink | .other => return []
    return below.flatten
  else return [path]

/-- Does something whenever a file was changed. -/
partial def watchFile (path : String) (act : Machine Unit) (last : Option (Int × UInt32)) :
    Machine Unit := do
  IO.sleep 200
  let now ← lastChange path
  if now ≠ last ∧ now.isSome then act
  watchFile path act now

instance : Host Machine where
  readFile path := guarded do return (← IO.FS.readBinFile path).toList
  writeFile path content := guarded (IO.FS.writeBinFile path ⟨content.toArray⟩)
  makeDirectories path := guarded (IO.FS.createDirAll path)
  isDirectory path := isDirectoryAt path
  pathExists path := do return (← lastChange path).isSome
  filesBelow path := filesBelowPath path
  watch path act := do watchFile path act (← lastChange path)
  elapsed := do return toString ((← IO.monoMsNow) - (← read))
  print text := do
    (← IO.getStdout).putStr text
    (← IO.getStdout).flush
  printError text := do (← IO.getStderr).putStr text

end Machine

end WidgetLayout

/-- Runs the program with the arguments of the command line. -/
def main (arguments : List String) : IO UInt32 := do
  let act : WidgetLayout.Machine UInt32 := WidgetLayout.Program.run arguments
  act (← IO.monoMsNow)
