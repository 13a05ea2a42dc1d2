/-
Compiling a source from its text to its bytes.
-/
import WidgetLayout.Document
import WidgetLayout.Token.Lexer

namespace WidgetLayout

/-- What a source is compiled with. -/
structure Options where
  bindings : Bindings
  /-- Whether the phases of a compilation are told to the user. -/
  debug : Bool
  /-- How deep widgets may be nested. -/
  maxDepth : Nat
  /-- How many bytes a source may have; zero is no limit. -/
  maxSourceSize : Nat

namespace Options

/-- What a source is compiled with unless something else is asked for. -/
def default : Options where
  bindings := .empty
  debug := false
  maxDepth := 64
  maxSourceSize := 0

instance : Inhabited Options := ⟨default⟩

/-- The context of a document, with the shipped schema. -/
def context (options : Options) : Context where
  symbols := .shipped
  bindings := options.bindings
  maxDepth := options.maxDepth

/-- Refuses a source with too many bytes. -/
def checkSize (options : Options) (source : String) : Except Error Unit :=
  if 0 < options.maxSourceSize ∧ options.maxSourceSize < source.utf8ByteSize then
    .error (.limitExceeded .sourceSize options.maxSourceSize)
  else .ok ()

end Options

/-- A compilation that has done nothing yet. -/
def Run.start {σ : Type} (source : σ) (sink : Sink) : Run σ := ⟨source, sink, .zero, #[]⟩

/-- What became of a compilation: the state at its end, whether it failed or not. -/
structure Outcome (σ : Type) where
  run : Run σ
  result : Except Error Unit

/-- Runs a compilation to its end. -/
def Compile.outcome {σ : Type} (m : Compile σ Unit) (run : Run σ) : Outcome σ :=
  match m run with
  | .ok _ run' => ⟨run', .ok ()⟩
  | .error e run' => ⟨run', .error e⟩

/-- Compiles a source into a sink. -/
def compileInto (sink : Sink) (context : Context) (source : String) : Outcome Lexer :=
  (Document.compile context).outcome (.start (.ofSource source) sink)

/-- The bytes of a source, with the counters of its compilation. -/
structure Output where
  bytes : List UInt8
  /-- How many bytes the source had. -/
  sourceSize : Nat
  /-- How many bytes were written. -/
  outputSize : Nat
  stats : Stats
deriving DecidableEq, Repr

/-- The output of a compilation that ended well. -/
def Outcome.output {σ : Type} (o : Outcome σ) (source : String) : Except Error Output :=
  o.result.map fun _ =>
    ⟨o.run.sink.bytes.toList, source.utf8ByteSize, o.run.sink.bytes.size, o.run.stats⟩

/-- Compiles a source. -/
def compileSource (options : Options) (source : String) : Except Error Output := do
  options.checkSize source
  (compileInto .unbounded options.context source).output source

end WidgetLayout
