import WidgetLayout.Arguments
import WidgetLayout.Bindings
import WidgetLayout.Bindings.Stored
import WidgetLayout.Compilation
import WidgetLayout.Compile
import WidgetLayout.Dictionary
import WidgetLayout.Document
import WidgetLayout.Error
import WidgetLayout.FileTree
import WidgetLayout.Host
import WidgetLayout.Json
import WidgetLayout.Json.Read
import WidgetLayout.Log
import WidgetLayout.Main
import WidgetLayout.Number.Binary
import WidgetLayout.Number.Decimal
import WidgetLayout.Number.Shortest
import WidgetLayout.Number.Single
import WidgetLayout.Number.Style
import WidgetLayout.Path
import WidgetLayout.Program
import WidgetLayout.Progress
import WidgetLayout.Proofs.Form
import WidgetLayout.Proofs.SizeTags
import WidgetLayout.Proofs.Tape
import WidgetLayout.Proofs.Utf8
import WidgetLayout.Proofs.Wire
import WidgetLayout.Schema
import WidgetLayout.Schema.Listing
import WidgetLayout.Settings
import WidgetLayout.Sink
import WidgetLayout.Stored
import WidgetLayout.Text.Blank
import WidgetLayout.Text.Hidden
import WidgetLayout.Text.Numeral
import WidgetLayout.Text.Quoted
import WidgetLayout.Text.Reader
import WidgetLayout.Text.Utf8
import WidgetLayout.Token
import WidgetLayout.Token.Lexeme
import WidgetLayout.Token.Lexer
import WidgetLayout.Token.Source
import WidgetLayout.Toml
import WidgetLayout.Toml.Read
import WidgetLayout.Toml.Scalar
import WidgetLayout.Value
import WidgetLayout.Value.Literal
import WidgetLayout.Value.Show
import WidgetLayout.Widget
import WidgetLayout.Widget.Decode
import WidgetLayout.Widget.Listing
import WidgetLayout.Wire.Read
import WidgetLayout.Wire.Write
import WidgetLayout.Proofs.Reading
import WidgetLayout.Proofs.Decoding
import WidgetLayout.Proofs.Declared
import WidgetLayout.Proofs.Effect
import WidgetLayout.Proofs.Literal
import WidgetLayout.Proofs.Grammar
import WidgetLayout.Proofs.Document
import WidgetLayout.Proofs.RoundTrip
import WidgetLayout.Proofs.Composed
import WidgetLayout.Proofs.Queue
import WidgetLayout.Proofs.BoundedSink
import WidgetLayout.Proofs.Unfinished
import WidgetLayout.Proofs.Scanning
import WidgetLayout.Proofs.DepthLimit
import WidgetLayout.Proofs.BytePrefix
import WidgetLayout.Proofs.Lookahead
import WidgetLayout.Proofs.TokenPrefix
import WidgetLayout.Proofs.Printing
import WidgetLayout.Proofs.Formatting
import WidgetLayout.Proofs.Successive
import WidgetLayout.Proofs.FileEffects
import WidgetLayout.Proofs.Commands
import WidgetLayout.Proofs.TokenPlaces
import WidgetLayout.Proofs.StringLines
import WidgetLayout.Proofs.LongestMatch
import WidgetLayout.Proofs.LiteralForms
import WidgetLayout.Proofs.WritablePaths
import WidgetLayout.Proofs.Checking
import WidgetLayout.Proofs.OneTokenAhead
import WidgetLayout.Proofs.HostNames
import WidgetLayout.Proofs.ErrorCauses
import WidgetLayout.Proofs.ErrorPlaces
import WidgetLayout.Proofs.Listing
import WidgetLayout.Proofs.Locality
import WidgetLayout.Proofs.MixedStream
import WidgetLayout.Proofs.BoundedDecoding
import WidgetLayout.Proofs.Numerals
import WidgetLayout.Proofs.IntegerPlaces
import WidgetLayout.Proofs.ShortestVarint
import WidgetLayout.Proofs.Outline
import WidgetLayout.Proofs.LastWrite
import WidgetLayout.Proofs.Precedence
import WidgetLayout.Proofs.FileNames
import WidgetLayout.Proofs.TagBits
import WidgetLayout.Proofs.Loops
import WidgetLayout.Proofs.HexLines
import WidgetLayout.Proofs.SourceFiles
import WidgetLayout.Proofs.OwnOutput
import WidgetLayout.Proofs.SymbolLookups
