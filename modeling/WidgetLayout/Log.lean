/-
What the program tells of its work: lines with a level, the part of the program that speaks and a
message.
-/
import WidgetLayout.Compilation
import WidgetLayout.Schema.Listing
import WidgetLayout.Value.Show

namespace WidgetLayout

/-- How much of interest a line is. -/
inductive Level
  | warn
  | info
  | debug
  | trace
deriving DecidableEq, Repr

namespace Level

/-- Higher levels are told only on demand. -/
def rank : Level → Nat
  | .warn => 0
  | .info => 1
  | .debug => 2
  | .trace => 3

/-- The name of a level. -/
def name : Level → String
  | .warn => "WARN"
  | .info => "INFO"
  | .debug => "DEBUG"
  | .trace => "TRACE"

end Level

namespace Log

/-- A part of the program, as lines name it. -/
inductive Topic
  | program
  | schema
  | tokens
  | tree
  | bindings
  | settings
deriving DecidableEq, Repr

/-- The name of a part. -/
def Topic.name : Topic → String
  | .program => "layoutc"
  | .schema => "layoutc::schema"
  | .tokens => "layoutc::lexer"
  | .tree => "layoutc::parser"
  | .bindings => "layoutc::bindings"
  | .settings => "layoutc::cli::config"

/-- A line for the reader; further lines of a message are indented. -/
def line (level : Level) (topic : Topic) (message : String) : String :=
  let body := message.toList.flatMap fun c => if c = '\n' then ['\n', ' ', ' ', ' ', ' '] else [c]
  s!"[{padRight 5 level.name} {topic.name}] " ++ String.ofList body ++ "\n"

/-- A structured value in a message. -/
def record (name : String) (fields : List (String × String)) : String :=
  name ++ " \x7b " ++ commaSeparated (fields.map fun f => f.1 ++ ": " ++ f.2) ++ " \x7d"

/-- A table of bindings in a message. -/
def table (t : BindingTable) : String :=
  let entries := t.entries.map fun e => quoted e.1 ++ ": " ++ toString e.2
  record "BindingTable" [("entries", "\x7b" ++ commaSeparated entries ++ "\x7d")]

/-- Options in a message. -/
def options (o : Options) : String :=
  record "CompilerOptions"
    [("bindings", record "Bindings"
      [("resources", table o.bindings.resources), ("properties", table o.bindings.properties)]),
     ("debug_mode", toString o.debug), ("max_nesting_depth", toString o.maxDepth),
     ("max_source_size", toString o.maxSourceSize)]

/-- The counters of a compilation in a message. -/
def stats (o : Output) (elapsed : String) : String :=
  record "CompilationStats"
    [("source_size", toString o.sourceSize), ("output_size", toString o.outputSize),
     ("widget_count", toString o.stats.widgets), ("property_count", toString o.stats.properties),
     ("binding_count", toString o.stats.bindings), ("max_depth", toString o.stats.maxDepth),
     ("compile_time_ms", elapsed)]

/-- What is told of an event of a compilation. -/
def event : Event → Topic × String
  | .token t => (.tokens, s!"token {t.kind.name} '{t.text}' at {t.position.text}")
  | .widget entry position depth =>
    (.tree, s!"widget {entry.name} (tag {entry.tag}) at {position.text}, depth {depth}")
  | .property name position value => (.tree, s!"property {name} at {position.text} = {value.trace}")
  | .binding name position source id =>
    (.tree, s!"property {name} at {position.text} bound to '{source}' ({id})")

/-- What is told when a schema is indexed. -/
def indexing (s : Schema) : String :=
  s!"Indexing schema: {s.widgets.length} widgets, {s.properties.length} properties, " ++
    s!"{s.enumerations.length} enumeration values"

end Log

end WidgetLayout
