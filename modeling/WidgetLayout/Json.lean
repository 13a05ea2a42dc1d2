/-
JSON documents and their two texts: compact, and spread over lines with two blanks per level.

A number is kept as the text that stands for it, because what a number may be is for the reader of a
document to say.  A string is written with a backslash before quotes and backslashes, the short
forms of the usual controls, and four hexadecimal digits for the others; everything else stands for
itself.
-/

namespace WidgetLayout

/-- A JSON document. -/
inductive Json
  | null
  | bool (b : Bool)
  | number (text : String)
  | string (text : String)
  | array (items : List Json)
  | object (fields : List (String × Json))
  /-- A document that can be passed over but not used: it spells half of a surrogate pair. -/
  | unreadable
deriving Inhabited

namespace Json

/-- How one character is spelled inside a string. -/
def spell (c : Char) : List Char :=
  match c with
  | '"' => ['\\', '"']
  | '\\' => ['\\', '\\']
  | '\n' => ['\\', 'n']
  | '\r' => ['\\', 'r']
  | '\t' => ['\\', 't']
  | '\x08' => ['\\', 'b']
  | '\x0c' => ['\\', 'f']
  | c =>
    if c.toNat < 0x20 then
      ['\\', 'u', '0', '0', Nat.digitChar (c.toNat / 16), Nat.digitChar (c.toNat % 16)]
    else [c]

/-- A string as JSON. -/
def quote (text : String) : String := String.ofList ('"' :: text.toList.flatMap spell ++ ['"'])

/-- A natural number as JSON. -/
def ofNat (n : Nat) : Json := .number (toString n)

mutual

/-- The text of a document without any blank. -/
def compact : Json → String
  | .null => "null"
  | .bool b => if b then "true" else "false"
  | .number text => text
  | .string text => quote text
  | .array items => "[" ++ ",".intercalate (compactItems items) ++ "]"
  | .object fields => "\x7b" ++ ",".intercalate (compactFields fields) ++ "\x7d"
  | .unreadable => "null"

/-- The texts of the items of an array. -/
def compactItems : List Json → List String
  | [] => []
  | item :: items => compact item :: compactItems items

/-- The texts of the fields of an object. -/
def compactFields : List (String × Json) → List String
  | [] => []
  | (key, value) :: fields => (quote key ++ ":" ++ compact value) :: compactFields fields

end

/-- The start of a line at a level. -/
def indent (level : Nat) : String := String.ofList (List.replicate (2 * level) ' ')

/-- The parts of an array or object between its brackets, each on a line of its own. -/
def block (level : Nat) (parts : List String) : String :=
  let lines := parts.map fun part => indent (level + 1) ++ part
  "\n" ++ ",\n".intercalate lines ++ "\n" ++ indent level

mutual

/-- The text of a document that stands at a level, spread over lines. -/
def prettyAt (level : Nat) : Json → String
  | .array [] => "[]"
  | .array (item :: items) => "[" ++ block level (prettyItems (level + 1) (item :: items)) ++ "]"
  | .object [] => "\x7b\x7d"
  | .object (field :: fields) =>
    "\x7b" ++ block level (prettyFields (level + 1) (field :: fields)) ++ "\x7d"
  | .null => "null"
  | .bool b => if b then "true" else "false"
  | .number text => text
  | .string text => quote text
  | .unreadable => "null"

/-- The texts of the items of an array at a level. -/
def prettyItems (level : Nat) : List Json → List String
  | [] => []
  | item :: items => prettyAt level item :: prettyItems level items

/-- The texts of the fields of an object at a level. -/
def prettyFields (level : Nat) : List (String × Json) → List String
  | [] => []
  | (key, value) :: fields =>
    (quote key ++ ": " ++ prettyAt level value) :: prettyFields level fields

end

/-- The text of a document spread over lines. -/
def pretty (document : Json) : String := prettyAt 0 document

end Json

end WidgetLayout
