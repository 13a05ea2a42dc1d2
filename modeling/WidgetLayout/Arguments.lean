/-
The command line.

Arguments are read from the left.  An option is given by its long name after two dashes, with its
value after an equals sign or as the next argument, or by its letter after one dash.  Letters can be
joined; what follows a letter that takes a value is the value, with or without an equals sign.  A
value of its own does not begin with a dash unless it is a dash alone, and two dashes alone end the
options.  All but a few options may be given once only.  Reading stops at the first argument that is
wrong, or that asks for the version or for help, and what stands behind that does not matter.
-/

namespace WidgetLayout

/-- The options of all commands. -/
inductive OptionName
  | config
  | verbose
  | version
  | help
  | output
  | bindings
  | resource
  | property
  | debug
  | stats
  | hex
  | watch
  | recursive
  | format
deriving DecidableEq, Repr

/-- How an option is given. -/
structure OptionForm where
  name : OptionName
  letter : Option Char
  word : String
  takesValue : Bool
  repeatable : Bool
  /-- The values that it can have, if not all. -/
  values : Option (List String)

/-- What may stand behind the name of a command. -/
structure CommandForm where
  options : List OptionForm
  /-- How many arguments it takes that are no options. -/
  inputs : Nat

/-- Why a command line asks for nothing that could be run. -/
inductive UsageStop
  /-- The version is asked for. -/
  | version
  /-- Help is asked for. -/
  | help
  /-- The arguments are not understood. -/
  | misuse
deriving DecidableEq, Repr

/-- The options and other arguments that were given, in order; an option without value has an empty
one. -/
structure Given where
  options : List (OptionName × String)
  inputs : List String
deriving DecidableEq, Repr

namespace Given

/-- Nothing given yet. -/
def empty : Given := ⟨[], []⟩

/-- Adds an option. -/
def addOption (g : Given) (form : OptionForm) (value : String) : Except UsageStop Given :=
  if form.name = .version then .error .version
  else if form.name = .help then .error .help
  else if form.values.any (!·.contains value) then .error .misuse
  else if !form.repeatable ∧ g.options.any (·.1 = form.name) then .error .misuse
  else .ok { g with options := g.options ++ [(form.name, value)] }

/-- Adds an argument that is no option, if there may be one more. -/
def addInput (limit : Nat) (g : Given) (input : String) : Except UsageStop Given :=
  if g.inputs.length < limit then .ok { g with inputs := g.inputs ++ [input] } else .error .misuse

/-- Whether an option was given. -/
def has (g : Given) (name : OptionName) : Bool := g.options.any (·.1 = name)

/-- The values that were given to an option. -/
def values (g : Given) (name : OptionName) : List String :=
  g.options.filterMap fun o => if o.1 = name then some o.2 else none

/-- The value that was given to an option. -/
def value? (g : Given) (name : OptionName) : Option String := (g.values name).head?

end Given

namespace Arguments

/-- A value that is still to come, as the next argument. -/
abbrev Pending := Option OptionForm

/-- Reads joined letters. -/
def readLetters (forms : List OptionForm) (g : Given) :
    List Char → Except UsageStop (Given × Pending)
  | [] => .ok (g, none)
  | c :: cs =>
    match forms.find? (·.letter = some c) with
    | none => .error .misuse
    | some form =>
      if form.takesValue then
        match cs with
        | [] => .ok (g, some form)
        | '=' :: value => do
          let g ← g.addOption form (String.ofList value)
          return (g, none)
        | value => do
          let g ← g.addOption form (String.ofList value)
          return (g, none)
      else do
        let g ← g.addOption form ""
        readLetters forms g cs

/-- Reads a long name, with the value after its equals sign. -/
def readWord (forms : List OptionForm) (g : Given) (cs : List Char) :
    Except UsageStop (Given × Pending) :=
  let word := String.ofList (cs.takeWhile (· ≠ '='))
  match forms.find? (·.word = word) with
  | none => .error .misuse
  | some form =>
    match cs.dropWhile (· ≠ '='), form.takesValue with
    | [], true => .ok (g, some form)
    | [], false => do
      let g ← g.addOption form ""
      return (g, none)
    | _ :: value, true => do
      let g ← g.addOption form (String.ofList value)
      return (g, none)
    | _ :: _, false => .error .misuse

/-- What an argument is by its first characters. -/
inductive Shape
  | endOfOptions
  | word (cs : List Char)
  | letters (cs : List Char)
  | plain
deriving DecidableEq, Repr

/-- The shape of an argument. -/
def shape (argument : String) : Shape :=
  match argument.toList with
  | ['-', '-'] => .endOfOptions
  | '-' :: '-' :: cs => .word cs
  | '-' :: c :: cs => .letters (c :: cs)
  | _ => .plain

/-- Reads an argument that is an option. -/
def readOption (forms : List OptionForm) (g : Given) : Shape → Except UsageStop (Given × Pending)
  | .word cs => readWord forms g cs
  | .letters cs => readLetters forms g cs
  | _ => .error .misuse

/-- Reads an argument that is the value of an option. -/
def readValue (form : OptionForm) (g : Given) (argument : String) : Except UsageStop Given :=
  if shape argument = .plain then g.addOption form argument else .error .misuse

/-- What is left of the arguments where options end: at a command, or after two dashes. -/
inductive Remaining
  | nothing
  | command (name : String) (arguments : List String)
  | inputs (arguments : List String)

/-- Reads options up to the first argument that is none. -/
def readOptions (forms : List OptionForm) (g : Given) (pending : Pending) :
    List String → Except UsageStop (Given × Remaining)
  | [] => if pending.isSome then .error .misuse else .ok (g, .nothing)
  | argument :: arguments =>
    match pending with
    | some form => do
      let g ← readValue form g argument
      readOptions forms g none arguments
    | none =>
      match shape argument with
      | .endOfOptions => .ok (g, .inputs arguments)
      | .plain => .ok (g, .command argument arguments)
      | s => do
        let (g, pending) ← readOption forms g s
        readOptions forms g pending arguments

/-- Reads options and other arguments in any order. -/
def readAll (form : CommandForm) (g : Given) (pending : Pending) :
    List String → Except UsageStop Given
  | [] => if pending.isSome then .error .misuse else .ok g
  | argument :: arguments =>
    match pending with
    | some option => do
      let g ← readValue option g argument
      readAll form g none arguments
    | none =>
      match shape argument with
      | .endOfOptions => arguments.foldlM (Given.addInput form.inputs) g
      | .plain => do
        let g ← g.addInput form.inputs argument
        readAll form g none arguments
      | s => do
        let (g, pending) ← readOption form.options g s
        readAll form g pending arguments

end Arguments

/-! ### The commands -/

/-- What a dump looks like. -/
inductive DumpFormat
  | text
  | json
  | hex
deriving DecidableEq, Repr

/-- What a list of symbols looks like. -/
inductive ListFormat
  | text
  | json
deriving DecidableEq, Repr

/-- Compiles a source to a file. -/
structure CompileArguments where
  input : String
  output : Option String
  bindings : Option String
  resources : List String
  properties : List String
  debug : Bool
  stats : Bool
  hex : Bool
  watch : Bool
deriving Repr

/-- Checks a source, or all sources in a directory. -/
structure CheckArguments where
  input : String
  recursive : Bool
  bindings : Option String
  debug : Bool
deriving Repr

/-- Shows what a compiled file holds. -/
structure DumpArguments where
  input : String
  output : Option String
  format : DumpFormat
deriving Repr

/-- What the program can be asked to do. -/
inductive Command
  | compile (arguments : CompileArguments)
  | check (arguments : CheckArguments)
  | dump (arguments : DumpArguments)
  | symbols (format : ListFormat)
deriving Repr

/-- A whole command line. -/
structure Invocation where
  /-- The path of a file with settings. -/
  config : Option String
  /-- How many times more was asked to be told. -/
  verbosity : Nat
  command : Option Command
deriving Repr

namespace Arguments

/-- An option without a value. -/
def flag (name : OptionName) (letter : Option Char) (word : String) : OptionForm :=
  ⟨name, letter, word, false, false, none⟩

/-- An option with a value. -/
def valued (name : OptionName) (letter : Char) (word : String) : OptionForm :=
  ⟨name, some letter, word, true, false, none⟩

/-- The option that asks for help, with and without a command. -/
def helpForm : OptionForm := flag .help (some 'h') "help"

/-- The options before a command. -/
def programForms : List OptionForm :=
  [valued .config 'c' "config", { flag .verbose (some 'v') "verbose" with repeatable := true },
   helpForm, flag .version (some 'V') "version"]

/-- The option for a file with bindings. -/
def bindingsForm : OptionForm := valued .bindings 'b' "bindings"

/-- The option that tells of the phases of a compilation. -/
def debugForm : OptionForm := flag .debug (some 'd') "debug"

/-- The option for an output file. -/
def outputForm : OptionForm := valued .output 'o' "output"

/-- The option for a format. -/
def formatForm (formats : List String) : OptionForm :=
  { valued .format 'f' "format" with values := some formats }

/-- The arguments of compiling. -/
def compileForms : CommandForm where
  options :=
    [outputForm, bindingsForm, { valued .resource 'r' "resource" with repeatable := true },
     { valued .property 'P' "property" with repeatable := true }, debugForm,
     flag .stats none "stats", flag .hex none "hex", flag .watch (some 'w') "watch", helpForm]
  inputs := 1

/-- The arguments of checking. -/
def checkForms : CommandForm where
  options := [flag .recursive (some 'r') "recursive", bindingsForm, debugForm, helpForm]
  inputs := 1

/-- The arguments of showing a compiled file. -/
def dumpForms : CommandForm where
  options := [outputForm, formatForm ["text", "json", "hex"], helpForm]
  inputs := 1

/-- The arguments of listing symbols. -/
def symbolsForms : CommandForm where
  options := [formatForm ["text", "json"], helpForm]
  inputs := 0

/-- The one argument that is no option. -/
def oneInput (g : Given) : Except UsageStop String :=
  match g.inputs with
  | [input] => .ok input
  | _ => .error .misuse

/-- The format of a dump. -/
def dumpFormat (g : Given) : Except UsageStop DumpFormat :=
  match g.value? .format with
  | none => .ok .text
  | some "text" => .ok .text
  | some "json" => .ok .json
  | some "hex" => .ok .hex
  | some _ => .error .misuse

/-- The format of a list. -/
def listFormat (g : Given) : Except UsageStop ListFormat :=
  match g.value? .format with
  | none => .ok .text
  | some "text" => .ok .text
  | some "json" => .ok .json
  | some _ => .error .misuse

/-- Reads the arguments of compiling. -/
def readCompile (arguments : List String) : Except UsageStop Command := do
  let g ← readAll compileForms .empty none arguments
  let input ← oneInput g
  return .compile
    { input := input
      output := g.value? .output
      bindings := g.value? .bindings
      resources := g.values .resource
      properties := g.values .property
      debug := g.has .debug
      stats := g.has .stats
      hex := g.has .hex
      watch := g.has .watch }

/-- Reads the arguments of checking. -/
def readCheck (arguments : List String) : Except UsageStop Command := do
  let g ← readAll checkForms .empty none arguments
  let input ← oneInput g
  return .check
    { input := input
      recursive := g.has .recursive
      bindings := g.value? .bindings
      debug := g.has .debug }

/-- Reads the arguments of showing a compiled file. -/
def readDump (arguments : List String) : Except UsageStop Command := do
  let g ← readAll dumpForms .empty none arguments
  let input ← oneInput g
  let format ← dumpFormat g
  return .dump { input := input, output := g.value? .output, format := format }

/-- Reads the arguments of listing symbols. -/
def readSymbols (arguments : List String) : Except UsageStop Command := do
  let g ← readAll symbolsForms .empty none arguments
  let format ← listFormat g
  return .symbols format

/-- The names of the commands. -/
def commandNames : List String := ["compile", "check", "dump", "symbols", "help"]

/-- Reads the arguments of asking for help, which can be about one command. -/
def readHelp : List String → UsageStop
  | [] => .help
  | [name] => if commandNames.contains name then .help else .misuse
  | _ => .misuse

/-- Reads a command by its name. -/
def readCommand (name : String) (arguments : List String) : Except UsageStop Command :=
  match name with
  | "compile" => readCompile arguments
  | "check" => readCheck arguments
  | "dump" => readDump arguments
  | "symbols" => readSymbols arguments
  | "help" => .error (readHelp arguments)
  | _ => .error .misuse

/-- Reads what follows the options of the program. -/
def readRemaining : Remaining → Except UsageStop (Option Command)
  | .nothing => .ok none
  | .command name arguments => some <$> readCommand name arguments
  | .inputs [] => .ok none
  | .inputs (_ :: _) => .error .misuse

/-- Reads a whole command line. -/
def read (arguments : List String) : Except UsageStop Invocation := do
  let (g, remaining) ← readOptions programForms .empty none arguments
  let command ← readRemaining remaining
  return ⟨g.value? .config, (g.values .verbose).length, command⟩

end Arguments

end WidgetLayout
