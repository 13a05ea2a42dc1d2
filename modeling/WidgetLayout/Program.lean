/-
The program: what each command does on a host.

A command ends with an error or without one, and the exit status says which.  Settings come from a
file, and what is given on the command line goes before them.
-/
import WidgetLayout.Arguments
import WidgetLayout.Bindings.Stored
import WidgetLayout.Host
import WidgetLayout.Log
import WidgetLayout.Settings
import WidgetLayout.Widget.Decode
import WidgetLayout.Widget.Listing

namespace WidgetLayout

/-- What a run of the program remembers besides what the host does. -/
structure Session where
  /-- Lines up to this rank are told. -/
  verbosity : Nat
  /-- Whether the shipped schema was indexed before. -/
  indexed : Bool

/-- The session at the start of a run. -/
def Session.start (verbosity : Nat) : Session := ⟨verbosity, false⟩

/-- An action of the program, which may fail. -/
abbrev Action (m : Type → Type) := ExceptT Error (StateT Session m)

namespace Program

/-- The name of the program. -/
def name : String := "layoutc"

/-- The version of the program. -/
def version : String := "0.1.0"

variable {m : Type → Type} [Monad m] [Host m]

/-! ### Telling -/

/-- Does something on the host. -/
def onHost {α : Type} (act : m α) : Action m α := ExceptT.lift (StateT.lift act)

/-- Does something that may fail, and gives what became of it. -/
def attempt {α : Type} (act : Action m α) : Action m (Except Error α) := ExceptT.lift act.run

/-- Prints a line. -/
def say (text : String) : Action m Unit := onHost (Host.print (text ++ "\n"))

/-- Tells of the work, if that was asked for. -/
def log (level : Level) (topic : Log.Topic) (message : String) : Action m Unit := do
  if level.rank ≤ (← get).verbosity then onHost (Host.printError (Log.line level topic message))
  else return ()

/-- Tells of the shipped schema when it is used for the first time. -/
def noteSchema : Action m Unit := do
  if (← get).indexed then return ()
  else
    log .debug .schema (Log.indexing .shipped)
    modify fun s => { s with indexed := true }

/-! ### Files -/

/-- Fails with an output fault where a file operation fails. -/
def orFail (result : Except FileFault Unit) : Action m Unit :=
  match result with
  | .ok _ => return ()
  | .error fault => throw (.output (.file fault))

/-- The bytes of a file. -/
def readBytes (role : FileRole) (path : String) : Action m (List UInt8) := do
  match ← onHost (Host.readFile path) with
  | .ok bytes => return bytes
  | .error fault => throw (.unreadableFile role path fault)

/-- The text of a file. -/
def readText (role : FileRole) (path : String) : Action m String := do
  let bytes ← readBytes role path
  match Text.Utf8.decode bytes with
  | .ok cs => return String.ofList cs
  | .error _ => throw (.unreadableFile role path .notText)

/-- Writes a file. -/
def writeBytes (path : String) (bytes : List UInt8) : Action m Unit := do
  orFail (← onHost (Host.writeFile path bytes))

/-- The bindings in a file, whose format its extension names. -/
def loadBindings (path : String) : Action m Bindings := do
  let text ← readText .bindings path
  let bindings ← match Path.extension? path with
    | some "json" => ExceptT.mk (pure (Bindings.parse .json text))
    | some "toml" => ExceptT.mk (pure (Bindings.parse .toml text))
    | _ => throw (.invalidFormat .bindingsKind)
  log .info .bindings
    s!"Loaded {bindings.resources.size} resources and {bindings.properties.size} properties from {path}"
  return bindings

/-- Whether a path ends with a text. -/
def endsWith (path ending : String) : Bool := ending.toList.reverse.isPrefixOf path.toList.reverse

/-- The settings in a file, whose format the end of its path names. -/
def loadSettings (path : String) : Action m Settings := do
  let text ← readText .config path
  let settings ← if endsWith path ".json" then ExceptT.mk (pure (Settings.parse .json text))
    else if endsWith path ".toml" then ExceptT.mk (pure (Settings.parse .toml text))
    else throw (.invalidFormat .configKind)
  log .info .settings s!"Loaded configuration from {path}"
  return settings

/-! ### Compiling -/

/-- Tells of the events of a compilation. -/
def tellEvents : List Event → Action m Unit
  | [] => return ()
  | e :: es => do
    log .trace (Log.event e).1 (Log.event e).2
    tellEvents es

/-- Compiles a source. -/
def compileText (options : Options) (source : String) : Action m Output := do
  ExceptT.mk (pure (options.checkSize source))
  log .debug .program s!"Source length: {source.utf8ByteSize} bytes"
  log .debug .program
    s!"Bindings: {options.bindings.resources.size} resources, {options.bindings.properties.size} properties"
  noteSchema
  let outcome := compileInto .unbounded options.context source
  tellEvents outcome.run.trace.toList
  let output ← ExceptT.mk (pure (outcome.output source))
  log .debug .program
    (s!"Compiled {output.stats.widgets} widgets, {output.stats.properties} properties, " ++
      s!"{output.stats.bindings} bindings")
  return output

/-- Tells of a phase of a compilation. -/
def tellPhase (options : Options) (message : String) : Action m Unit := do
  if options.debug then log .info .program message else return ()

/-- Compiles a source file; the output file is written only if all went well. -/
def compileFile (options : Options) (input output : String) : Action m Output := do
  tellPhase options s!"{name} v{version}"
  tellPhase options s!"Compiling '{input}' to '{output}'..."
  log .debug .program s!"Compiler options: {Log.options options}"
  let source ← readText .input input
  let result ← compileText options source
  writeBytes output result.bytes
  let elapsed ← onHost Host.elapsed
  tellPhase options "Compilation successful!"
  tellPhase options s!"Source size: {result.sourceSize} bytes"
  tellPhase options s!"Output size: {result.outputSize} bytes"
  tellPhase options s!"Compile time: {elapsed}ms"
  log .debug .program s!"Full stats: {Log.stats result elapsed}"
  return result

/-- The path of the output of a source: as given, else by its name in the output directory, else
beside it. -/
def outputPath (settings : Settings) (input : String) : Option String → String
  | some path => path
  | none =>
    let beside := Path.withExtension input "bin"
    match settings.outputDirectory, Path.fileName? beside with
    | some directory, some fileName => Path.join directory fileName
    | _, _ => beside

/-- The bindings of a file, if there is one. -/
def fileBindings : Option String → Action m Bindings
  | none => return .empty
  | some path => loadBindings path

/-- Options from settings and the command line; definitions there replace entries of the file. -/
def buildOptions (settings : Settings) (bindings : Option String)
    (resources properties : List String) (debug : Bool) : Action m Options := do
  let stored ← fileBindings (bindings.orElse fun _ => settings.bindings)
  let resources ← ExceptT.mk (pure (BindingTable.defineAll .empty resources))
  let properties ← ExceptT.mk (pure (BindingTable.defineAll .empty properties))
  return {
    bindings := stored.merge ⟨resources, properties⟩
    debug := debug
    maxDepth := settings.maxDepth.getD Options.default.maxDepth
    maxSourceSize := settings.maxSourceSize.getD Options.default.maxSourceSize }

/-- Prints the counters of a compilation. -/
def sayStats (o : Output) (elapsed : String) : Action m Unit := do
  say "\n📊 Detailed Compilation Statistics:"
  say s!"   Source size: {o.sourceSize} bytes"
  say s!"   Output size: {o.outputSize} bytes"
  say s!"   Compile time: {elapsed}ms"
  say "\n   Tree breakdown:"
  say s!"     Widgets: {o.stats.widgets}"
  say s!"     Properties: {o.stats.properties}"
  say s!"     Bindings: {o.stats.bindings}"
  say s!"     Max depth: {o.stats.maxDepth}"

/-- Prints the bytes of the file that was written. -/
def sayHex (path : String) : Action m Unit := do
  match ← onHost (Host.readFile path) with
  | .ok bytes => onHost (Host.print (HexListing.render bytes))
  | .error fault => throw (.output (.file fault))

/-- Compiles a source file and says so. -/
def compileOnce (a : CompileArguments) (options : Options) (output : String) : Action m Unit := do
  say s!"🔨 Compiling {a.input} -> {output}"
  let result ← compileFile options a.input output
  let elapsed ← onHost Host.elapsed
  say "✅ Compilation successful!"
  say s!"   Output: {result.outputSize} bytes"
  say s!"   Time: {elapsed}ms"
  if a.stats then sayStats result elapsed
  if a.hex then sayHex output

/-- Compiles a source file and says what became of it, without failing. -/
def compileAgain (options : Options) (input output : String) (success : Output → String)
    (failure : String) : Action m Unit := do
  match ← attempt (compileFile options input output) with
  | .ok result => say (success result)
  | .error e => onHost (Host.printError s!"❌ {failure}: {e.message}\n")

/-- Compiles a source file now and after every change of it. -/
def compileWatching (options : Options) (input output : String) : Action m Unit := do
  say s!"👀 Watching {input} for changes..."
  if ← onHost (Host.pathExists input) then
    compileAgain options input output (fun _ => "✅ Initial compilation successful")
      "Initial compilation failed"
    let session ← get
    onHost (Host.watch input (do
      Host.print "🔄 File changed, recompiling...\n"
      let elapsed ← Host.elapsed
      let again : Action m Unit := compileAgain options input output
        (fun result => s!"✅ Recompiled successfully ({result.outputSize} bytes, {elapsed}ms)")
        "Compilation failed"
      let _ ← again session))
  else throw (.output .watch)

/-- Makes the directories that an output file needs. -/
def prepareOutput (output : String) : Action m Unit := do
  match Path.parent? output.toList with
  | none => return ()
  | some directory =>
    if directory.isEmpty then return ()
    else orFail (← onHost (Host.makeDirectories (String.ofList directory)))

/-- The command that compiles a source. -/
def compile (settings : Settings) (a : CompileArguments) : Action m Unit := do
  let output := outputPath settings a.input a.output
  prepareOutput output
  let options ← buildOptions settings a.bindings a.resources a.properties a.debug
  if a.watch then compileWatching options a.input output
  else compileOnce a options output

/-! ### Checking -/

/-- Compiles a source file without writing anything. -/
def checkFile (options : Options) (path : String) : Action m Output := do
  let source ← readText .input path
  compileText options source

/-- Checks a source file, says what was found, and gives the error if there is one. -/
def checkSource (options : Options) (path : String) : Action m (Option Error) := do
  say s!"🔍 Checking {path}"
  match ← attempt (checkFile options path) with
  | .ok output =>
    say s!"✅ {path} - No issues found ({output.stats.widgets} widgets)"
    return none
  | .error e =>
    say s!"❌ {path} - {e.message}"
    return some e

/-- Checks source files one after the other and counts those with errors. -/
def checkSources (options : Options) : List String → Action m Nat
  | [] => return 0
  | path :: paths => do
    let error ← checkSource options path
    let failed ← checkSources options paths
    return (if error.isSome then 1 else 0) + failed

/-- A part of a whole in percent: a double-precision quotient and product, shown with one place. -/
def percent (part whole : Nat) : String :=
  let tenths := do
    let quotient ← BinaryFormat.double.nearest part whole
    let (n, d) := quotient.fraction
    let product ← BinaryFormat.double.nearest (n * 100) d
    let (n, d) := product.fraction
    some (BinaryFormat.roundDiv (n * 10) d)
  let tenths := tenths.getD 0
  s!"{tenths / 10}.{tenths % 10}"

/-- The extension of source files. -/
def sourceExtension : String := "layout"

/-- Checks all source files below a directory. -/
def checkDirectory (options : Options) (directory : String) : Action m Unit := do
  let paths ← onHost (Host.filesBelow directory)
  let sources := paths.filter fun path => Path.extension? path = some sourceExtension
  let failed ← checkSources options sources
  let total := sources.length
  say "\n📊 Check Summary:"
  say s!"   Total files: {total}"
  say s!"   Files with errors: {failed}"
  if 0 < total then say s!"   Success rate: {percent (total - failed) total}%"
  if 0 < failed then throw (.invalidFormat (.failedChecks failed))

/-- The command that checks sources. -/
def check (settings : Settings) (a : CheckArguments) : Action m Unit := do
  let options ← buildOptions settings a.bindings [] [] a.debug
  if a.recursive && (← onHost (Host.isDirectory a.input)) then checkDirectory options a.input
  else
    match ← checkSource options a.input with
    | none => return ()
    | some e => throw e

/-! ### Showing -/

/-- The tree that bytes stand for. -/
def decodeTree (bytes : List UInt8) : Action m Widget := do
  noteSchema
  ExceptT.mk (pure (Decode.decode .shipped bytes))

/-- The text of a dump. -/
def dumpText (bytes : List UInt8) : DumpFormat → Action m String
  | .hex => return HexListing.render bytes
  | .text => do
    let tree ← decodeTree bytes
    return tree.listing .shipped
  | .json => do
    let tree ← decodeTree bytes
    return tree.json.pretty ++ "\n"

/-- The command that shows what a compiled file holds. -/
def dump (a : DumpArguments) : Action m Unit := do
  let bytes ← readBytes .input a.input
  let text ← dumpText bytes a.format
  match a.output with
  | some path =>
    writeBytes path (Text.Utf8.encode text.toList)
    say s!"✅ Dump saved to {path}"
  | none => onHost (Host.print text)

/-- The command that lists the symbols of the shipped schema. -/
def symbols : ListFormat → Action m Unit
  | .text => onHost (Host.print Schema.shipped.listing)
  | .json => onHost (Host.print (Schema.shipped.json.pretty ++ "\n"))

/-! ### Running -/

/-- The settings of a run. -/
def settingsOf : Option String → Action m Settings
  | none => return .empty
  | some path => loadSettings path

/-- Does what a command line asks for. -/
def perform (i : Invocation) : Action m Unit := do
  let settings ← settingsOf i.config
  match i.command with
  | some (.compile a) => compile settings a
  | some (.check a) => check settings a
  | some (.dump a) => dump a
  | some (.symbols format) => symbols format
  | none => say "No subcommand specified. Use --help for usage information."

/-- How the program is called.  The wording of help and of complaints about arguments is not
modelled: this one line stands for both. -/
def usage : String :=
  s!"usage: {name} [-c FILE] [-v] [compile | check | dump | symbols | help] ...\n"

/-- Runs the program and gives its exit status. -/
def run (arguments : List String) : m UInt32 := do
  match Arguments.read arguments with
  | .error .version =>
    Host.print s!"{name} {version}\n"
    return 0
  | .error .help =>
    Host.print usage
    return 0
  | .error .misuse =>
    Host.printError usage
    return 2
  | .ok invocation =>
    let (result, _) ← (perform invocation) (Session.start invocation.verbosity)
    match result with
    | .ok _ => return 0
    | .error e =>
      Host.printError s!"❌ {e.message}\n"
      return 1

end Program

end WidgetLayout
