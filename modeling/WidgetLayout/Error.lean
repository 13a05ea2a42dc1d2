/-
Everything that can go wrong, as a cause, and the wording of each cause.

A cause says what was expected and what was found; nothing else in the library spells a message.
`Error.message` is the only place that joins the parts.
-/
import WidgetLayout.Number.Decimal
import WidgetLayout.Text.Utf8
import WidgetLayout.Token
import WidgetLayout.Wire.Read

namespace WidgetLayout

/-! ### Faults of a source -/

/-- What should have stood where another token was found. -/
inductive Expectation
  | kind (k : TokenKind)
  | numberOrInteger
  | bodyItem
  | comma
  | sizeItem
  | resourceWord
  | endOfInput
deriving DecidableEq, Repr

/-- The wording of an expectation. -/
def Expectation.text : Expectation → String
  | .kind k => k.name
  | .numberOrInteger => "number or integer"
  | .bodyItem => "property, child widget or closing brace"
  | .comma => "comma"
  | .sizeItem => "'auto', 'expand', integer or percentage"
  | .resourceWord => "'resource'"
  | .endOfInput => "end of input"

/-- The class of a name that could not be resolved. -/
inductive SymbolKind
  | widget
  | property
  /-- A name in a widget body that is neither a property nor a widget. -/
  | member
  | enumeration
  | resource
  | propertyBinding
deriving DecidableEq, Repr

/-- The wording of a class of names. -/
def SymbolKind.text : SymbolKind → String
  | .widget => "widget type"
  | .property => "property"
  | .member => "identifier"
  | .enumeration => "enumeration value"
  | .resource => "resource"
  | .propertyBinding => "property binding"

/-- Why a literal of the right form has no value. -/
inductive ValueFault
  | integerRange (text : String)
  | number (text : String) (fault : Single.TextFault)
  | boolean (text : String)
  | marginCount
  | sizeWord (text : String)
deriving DecidableEq, Repr

/-- The wording of a value fault. -/
def ValueFault.text : ValueFault → String
  | .integerRange text => s!"integer {text} is out of range 0..=4294967295"
  | .number text fault => s!"invalid number {text}: {fault.message}"
  | .boolean text => s!"invalid boolean value: {text}"
  | .marginCount => "invalid count for margins. only 1, 2 or 4 values are allowed"
  | .sizeWord text => s!"unexpected identifier {text}. must be auto or expand"

/-- What there can be too much of. -/
inductive Limit
  | nestingDepth
  | sourceSize
  | decodedDepth
deriving DecidableEq, Repr

/-- The wording of a limit. -/
def Limit.text : Limit → String
  | .nestingDepth => "widget nesting depth"
  | .sourceSize => "source size in bytes"
  | .decodedDepth => "decoded widget nesting depth"

/-! ### Faults of a byte document -/

/-- The part of a byte document that could not be read. -/
inductive WirePart
  | tag
  | varint
  | float
  | string
deriving DecidableEq, Repr

/-- The name of a part. -/
def WirePart.text : WirePart → String
  | .tag => "tag"
  | .varint => "varint"
  | .float => "float"
  | .string => "string"

/-- Why bytes are no document, with the offset at which that shows. -/
inductive DecodeFault
  | unreadable (part : WirePart) (offset : Nat) (fault : Wire.ReadFault)
  | unknownTag (tag : UInt8) (offset : Nat)
  | unknownProperty (id : UInt8) (offset : Nat)
  | notText (offset : Nat) (fault : Text.Utf8.Fault)
  | badBoolean (value : UInt8) (offset : Nat)
  | emptySizeList (offset : Nat)
  | trailingBytes (count : Nat)
deriving DecidableEq, Repr

/-- A byte as two hexadecimal digits. -/
def hexByte (b : UInt8) : String :=
  String.ofList [Nat.digitChar (b.toNat / 16), Nat.digitChar (b.toNat % 16)]

/-- The wording of a decoding fault. -/
def DecodeFault.text : DecodeFault → String
  | .unreadable part offset fault => s!"{part.text} at offset {offset}: {fault.message}"
  | .unknownTag tag offset => s!"unknown widget tag 0x{hexByte tag} at offset {offset}"
  | .unknownProperty id offset => s!"unknown property id 0x{hexByte id} at offset {offset}"
  | .notText offset fault => s!"string at offset {offset} is not UTF-8: {fault.message}"
  | .badBoolean value offset => s!"boolean byte {value} at offset {offset}"
  | .emptySizeList offset => s!"empty size list at offset {offset}"
  | .trailingBytes count => s!"{count} trailing bytes after the root widget"

/-! ### Faults of files -/

/-- Why a file could not be read, written or made. -/
inductive FileFault
  | notFound
  | alreadyExists
  | notDirectory
  | isDirectory
  | nameTooLong
  | zeroInName
  /-- The bytes of the file are no UTF-8 text. -/
  | notText
  | other (text : String)
deriving DecidableEq, Repr

/-- The wording of a file fault. -/
def FileFault.text : FileFault → String
  | .notFound => "No such file or directory (os error 2)"
  | .alreadyExists => "File exists (os error 17)"
  | .notDirectory => "Not a directory (os error 20)"
  | .isDirectory => "Is a directory (os error 21)"
  | .nameTooLong => "File name too long (os error 36)"
  | .zeroInName => "file name contained an unexpected NUL byte"
  | .notText => "stream did not contain valid UTF-8"
  | .other text => text

/-- What a file that could not be read was wanted for. -/
inductive FileRole
  | input
  | bindings
  | config
deriving DecidableEq, Repr

/-- The path of a file as messages about its role show it. -/
def FileRole.describe : FileRole → String → String
  | .input, path => path
  | .bindings, path => s!"Bindings file {path}"
  | .config, path => s!"Config file {path}"

/-- The data formats in which bindings and configurations are kept. -/
inductive FileFormat
  | json
  | toml
deriving DecidableEq, Repr

/-- The name of a format. -/
def FileFormat.name : FileFormat → String
  | .json => "JSON"
  | .toml => "TOML"

/-- Why something failed that is neither a source nor a single file operation. -/
inductive FormatFault
  | bytes (fault : DecodeFault)
  | definition (text : String)
  | definitionId (text : String) (fault : Text.NumeralFault)
  | bindingsKind
  | bindingsContent (format : FileFormat)
  | configKind
  | configContent (format : FileFormat)
  | failedChecks (count : Nat)
deriving DecidableEq, Repr

/-- The wording of a format fault.  Why a file is not a table of its kind is told by a fixed text:
there the libraries that read the formats have messages of their own, and their wording is not
modelled. -/
def FormatFault.text : FormatFault → String
  | .bytes fault => fault.text
  | .definition text => s!"Invalid binding definition: {text}. Use NAME=ID format."
  | .definitionId text fault => s!"Invalid id in binding '{text}': {fault.message}"
  | .bindingsKind => "Bindings file must be .json or .toml format"
  | .bindingsContent format =>
      s!"Invalid {format.name} bindings: not a table of resources and properties"
  | .configKind => "Config file must be .json or .toml format"
  | .configContent format => s!"Invalid {format.name} config: not a table of settings"
  | .failedChecks count => s!"{count} files have errors"

/-- Why output could not be delivered. -/
inductive OutputFault
  /-- A bounded sink has no room left. -/
  | sinkFull
  /-- A string has more bytes than a count can say. -/
  | stringTooLong
  /-- A size list has more items than a count can say. -/
  | sizeListTooLong
  | file (fault : FileFault)
  /-- A file that is to be watched is not there. -/
  | watch
deriving DecidableEq, Repr

/-- The wording of an output fault. -/
def OutputFault.text : OutputFault → String
  | .sinkFull => "failed to write whole buffer"
  | .stringTooLong => "string longer than u32::MAX bytes"
  | .sizeListTooLong => "size list too long"
  | .file fault => fault.text
  | .watch => "Failed to watch file: the path does not exist"

/-! ### Errors -/

/-- Every way in which a run of the library can fail. -/
inductive Error
  | output (fault : OutputFault)
  | unexpectedToken (position : Position) (expected : Expectation) (found : String)
  | unexpectedEnd (position : Position)
  | unknownSymbol (position : Position) (kind : SymbolKind) (name : String)
  | invalidValue (position : Position) (fault : ValueFault)
  | propertyAfterChild (position : Position) (property : String)
  | limitExceeded (limit : Limit) (bound : Nat)
  | unreadableFile (role : FileRole) (path : String) (fault : FileFault)
  | invalidFormat (fault : FormatFault)
deriving DecidableEq, Repr

namespace Error

/-- The message of an error. -/
def message : Error → String
  | output fault => s!"IO error: {fault.text}"
  | unexpectedToken position expected found =>
    s!"Syntax error at {position.text}: expected {expected.text}, found '{found}'"
  | unexpectedEnd position => s!"Unexpected end of input at {position.text}"
  | unknownSymbol position kind name => s!"Unknown {kind.text} at {position.text}: '{name}'"
  | invalidValue position fault => s!"Invalid value at {position.text}: {fault.text}"
  | propertyAfterChild position property =>
    s!"Property '{property}' at {position.text} is declared after a child widget; " ++
      "properties must come first"
  | limitExceeded limit bound => s!"Maximum limit exceeded: {limit.text} (limit: {bound})"
  | unreadableFile role path fault => s!"File not found: {role.describe path}: {fault.text}"
  | invalidFormat fault => s!"Invalid format: {fault.text}"

/-- The place in a source that an error points at, if it is about a source. -/
def position? : Error → Option Position
  | unexpectedToken position _ _ => some position
  | unexpectedEnd position => some position
  | unknownSymbol position _ _ => some position
  | invalidValue position _ => some position
  | propertyAfterChild position _ => some position
  | _ => none

end Error

end WidgetLayout
