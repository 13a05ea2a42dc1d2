/-
Tokens: the words and signs of a layout source, each with the place where it begins.
-/

namespace WidgetLayout

/-- A place in a source; the first character stands at line 1, column 1. -/
structure Position where
  line : Nat
  column : Nat
deriving DecidableEq, Repr, Inhabited

namespace Position

/-- Where every source begins. -/
def start : Position := ⟨1, 1⟩

/-- Where the character after `c` stands, if `c` stands at `p`; only a newline begins a line. -/
def next (p : Position) (c : Char) : Position :=
  if c = '\n' then ⟨p.line + 1, 1⟩ else ⟨p.line, p.column + 1⟩

/-- Where the text after `cs` begins, if `cs` begins at `p`. -/
def after (p : Position) (cs : List Char) : Position := cs.foldl next p

@[simp] theorem after_nil (p : Position) : p.after [] = p := rfl

@[simp] theorem after_append (p : Position) (cs ds : List Char) :
    p.after (cs ++ ds) = (p.after cs).after ds := List.foldl_append

/-- A place as it is shown in messages. -/
def text (p : Position) : String := s!"{p.line}:{p.column}"

end Position

/-- What a token is. -/
inductive TokenKind
  | identifier
  | integer
  /-- Digits with a point and digits after it. -/
  | number
  /-- An integer or a number with a percent sign directly after it. -/
  | percentage
  | string
  | openBrace
  | closeBrace
  | openParens
  | closeParens
  | colon
  | semicolon
  | comma
  | endOfFile
  /-- Characters that begin no token, or an unclosed string or comment. -/
  | invalid
deriving DecidableEq, Repr, Inhabited

/-- The name of a kind in messages. -/
def TokenKind.name : TokenKind → String
  | .identifier => "identifier"
  | .integer => "integer"
  | .number => "number"
  | .percentage => "percentage"
  | .string => "string"
  | .openBrace => "opening brace"
  | .closeBrace => "closing brace"
  | .openParens => "opening parens"
  | .closeParens => "closing parens"
  | .colon => "colon"
  | .semicolon => "semicolon"
  | .comma => "comma"
  | .endOfFile => "<end of file>"
  | .invalid => "<invalid token>"

/-- A token: its kind, its text and where it begins.  The text of a string is what it stands for. -/
structure Token where
  kind : TokenKind
  text : String
  position : Position
deriving DecidableEq, Repr, Inhabited

/-- Whether a token is the identifier `text`. -/
def Token.isWord (t : Token) (text : String) : Bool := t.kind = .identifier && t.text = text

end WidgetLayout
