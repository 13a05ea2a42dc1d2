/-
Compiling a widget document.

A document is one widget: its name, and between braces its properties and then its children.  Bytes
are written while tokens are read, and no tree is built.  What has to be remembered is which widgets
are open and whether each of them has had a child: that is a stack of sections, and its height is
the depth of nesting.  Every step of `bodyStep` takes one item of the innermost open widget.

The record of a widget is its tag, its properties, a zero, its children and another zero.
-/
import WidgetLayout.Value.Literal
import WidgetLayout.Widget

namespace WidgetLayout

open WidgetLayout.Compile WidgetLayout.Progress

/-- What a document is compiled against. -/
structure Context where
  symbols : SymbolTables
  bindings : Bindings
  /-- How deep widgets may be nested; a root alone has depth 1. -/
  maxDepth : Nat

/-- The part of an open widget that is being compiled. -/
inductive Section
  | properties
  | children
deriving DecidableEq, Repr

namespace Document

variable {σ : Type} [TokenSource σ]

/-- Compiles a property whose value comes from the host, after its colon. -/
def bound (context : Context) (property : PropertyEntry) (name : Token) : Compile σ Unit := do
  write [property.id ||| bindingFlag]
  let _ ← accept .identifier
  let _ ← accept .openParens
  let source ← accept .string
  let _ ← accept .closeParens
  let _ ← accept .semicolon
  match context.bindings.properties.get? source.text with
  | some id =>
    write (Wire.varint id)
    record (.binding property.name name.position source.text id)
    tally fun s => { s with bindings := s.bindings + 1 }
  | none => throw (.unknownSymbol source.position .propertyBinding source.text)

/-- Compiles a property whose value is a literal, after its colon. -/
def literal (context : Context) (property : PropertyEntry) (name : Token) : Compile σ Unit := do
  write [property.id]
  let value ← Literal.encode context.symbols context.bindings.resources property.type
  record (.property property.name name.position value)
  tally fun s => { s with properties := s.properties + 1 }

/-- Compiles a property after its name. -/
def property (context : Context) (property : PropertyEntry) (name : Token) : Compile σ Unit := do
  let _ ← accept .colon
  let front ← peek
  if front.any (·.isWord "bind") then bound context property name else literal context property name

/-- Begins the record of the widget of a name at a depth, from its brace on. -/
def enterWidget (context : Context) (depth : Nat) (name : Token) : Compile σ Unit := do
  let _ ← accept .openBrace
  match context.symbols.widget? name.text with
  | some entry =>
    write [entry.tag]
    record (.widget entry name.position depth)
    tally fun s => { s with widgets := s.widgets + 1, maxDepth := max s.maxDepth depth }
  | none => throw (.unknownSymbol name.position .widget name.text)

/-- Opens the widget of a name, unless that would nest widgets too deep. -/
def openWidget (context : Context) (depth : Nat) (name : Token) : Compile σ Unit :=
  if context.maxDepth < depth then throw (.limitExceeded .nestingDepth context.maxDepth)
  else enterWidget context depth name

/-- Ends the properties of an open widget, unless that was done before. -/
def endProperties : Section → Compile σ Unit
  | .properties => write [terminator]
  | .children => pure ()

/-- The class of a name that is no property and no widget, by the token after it. -/
def memberKind (front : Option Token) : SymbolKind :=
  match front.map Token.kind with
  | some .colon => .property
  | some .openBrace => .widget
  | _ => .member

/-- Compiles one item of the innermost open widget and says which widgets are open then. -/
def bodyItem (context : Context) (here : Section) (outer : List Section) :
    Compile σ (List Section) := do
  let t ← expect
  match t.kind with
  | .closeBrace =>
    endProperties here
    write [terminator]
    return outer
  | .identifier =>
    match context.symbols.property? t.text with
    | some entry =>
      match here with
      | .children => throw (.propertyAfterChild t.position t.text)
      | .properties =>
        property context entry t
        return .properties :: outer
    | none =>
      match context.symbols.widget? t.text with
      | some _ =>
        endProperties here
        openWidget context (outer.length + 2) t
        return .properties :: .children :: outer
      | none =>
        let front ← peek
        throw (.unknownSymbol t.position (memberKind front) t.text)
  | _ => throw (.unexpectedToken t.position .bodyItem t.text)

/-- Goes on with the widgets that are open, or is done when none is. -/
def goOn : List Section → (Section × List Section) ⊕ Unit
  | [] => .inr ()
  | here :: outer => .inl (here, outer)

/-- One step through the body of the open widgets. -/
def bodyStep (context : Context) (sections : Section × List Section) :
    Compile σ ((Section × List Section) ⊕ Unit) :=
  goOn <$> bodyItem context sections.1 sections.2

/-! ### Every step takes a token -/

theorem keeps_bound (context : Context) (entry : PropertyEntry) (name : Token) :
    Keeps (bound context entry name : Compile σ Unit) := by
  refine keeps_bind (keeps_write _) fun _ => keeps_bind (shrinks_accept _).1 fun _ =>
    keeps_bind (shrinks_accept _).1 fun _ => keeps_bind (shrinks_accept _).1 fun source =>
      keeps_bind (shrinks_accept _).1 fun _ => keeps_bind (shrinks_accept _).1 fun _ => ?_
  split
  · exact keeps_bind (keeps_write _) fun _ => keeps_bind (keeps_record _) fun _ => keeps_tally _
  · exact keeps_throw _

theorem keeps_literal (context : Context) (entry : PropertyEntry) (name : Token) :
    Keeps (literal context entry name : Compile σ Unit) :=
  keeps_bind (keeps_write _) fun _ => keeps_bind (Literal.keeps_encode _ _ _) fun _ =>
    keeps_bind (keeps_record _) fun _ => keeps_tally _

theorem keeps_property (context : Context) (entry : PropertyEntry) (name : Token) :
    Keeps (property context entry name : Compile σ Unit) := by
  refine keeps_bind (shrinks_accept _).1 fun _ => keeps_bind keeps_peek fun front => ?_
  split
  · exact keeps_bound context entry name
  · exact keeps_literal context entry name

theorem keeps_enterWidget (context : Context) (depth : Nat) (name : Token) :
    Keeps (enterWidget context depth name : Compile σ Unit) := by
  refine keeps_bind (shrinks_accept _).1 fun _ => ?_
  split
  · exact keeps_bind (keeps_write _) fun _ => keeps_bind (keeps_record _) fun _ => keeps_tally _
  · exact keeps_throw _

theorem keeps_openWidget (context : Context) (depth : Nat) (name : Token) :
    Keeps (openWidget context depth name : Compile σ Unit) := by
  unfold openWidget
  split
  · exact keeps_throw _
  · exact keeps_enterWidget context depth name

theorem keeps_endProperties (s : Section) : Keeps (endProperties s : Compile σ Unit) := by
  cases s
  · exact keeps_write _
  · exact keeps_pure _

theorem shrinks_bodyItem (context : Context) (here : Section) (outer : List Section) :
    Shrinks (bodyItem context here outer : Compile σ (List Section)) := by
  refine shrinks_bind shrinks_expect fun t => ?_
  split
  · exact keeps_bind (keeps_endProperties here) fun _ =>
      keeps_bind (keeps_write _) fun _ => keeps_pure _
  · split
    · split
      · exact keeps_throw _
      · exact keeps_bind (keeps_property context _ t) fun _ => keeps_pure _
    · split
      · exact keeps_bind (keeps_endProperties here) fun _ =>
          keeps_bind (keeps_openWidget context _ t) fun _ => keeps_pure _
      · exact keeps_bind keeps_peek fun _ => keeps_throw _
  · exact keeps_throw _

theorem shrinks_bodyStep (context : Context) (sections : Section × List Section) :
    Shrinks (bodyStep context sections : Compile σ ((Section × List Section) ⊕ Unit)) :=
  shrinks_map (shrinks_bodyItem context sections.1 sections.2)

/-! ### Documents -/

/-- Compiles one document; nothing may follow it. -/
def compile (context : Context) : Compile σ Unit := do
  let name ← accept .identifier
  openWidget context 1 name
  iterate (bodyStep context) (fun b => (shrinks_bodyStep context b).advances) (.properties, [])
  match ← peek with
  | some t => throw (.unexpectedToken t.position .endOfInput t.text)
  | none => return ()

end Document

end WidgetLayout
