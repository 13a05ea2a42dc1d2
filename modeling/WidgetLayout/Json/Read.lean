/-
Reading JSON documents from their text.

The grammar is the strict one: no comments, no commas before a closing bracket, no leading zeros, no
bare control characters in strings, and nothing but blanks after the document.  Arrays and objects
that have begun and not ended are kept on a stack, and every step takes at least one character.

An escaped half of a surrogate pair is grammatical, but such a string has no text; a document that
holds one is `unreadable` up to the innermost value around it, and so is an object with such a key.
-/
import WidgetLayout.Json
import WidgetLayout.Text.Numeral
import WidgetLayout.Text.Reader

namespace WidgetLayout.Json

open WidgetLayout.Progress WidgetLayout.Text

/-! ### Strings -/

/-- A piece of a string: a character, or an escaped 16-bit unit. -/
inductive Piece
  | char (c : Char)
  | unit (n : Nat)

/-- The character that 16 bits stand for, unless they are half of a surrogate pair. -/
def unitChar? (n : Nat) : Option Char :=
  if n.isValidChar then some (Char.ofNat n) else none

/-- The text of some pieces; there is none if half of a surrogate pair stands alone. -/
def joinPieces : List Piece → Option (List Char)
  | [] => some []
  | .char c :: rest => (joinPieces rest).map (c :: ·)
  | .unit high :: rest =>
    if 0xD800 ≤ high ∧ high < 0xDC00 then
      match rest with
      | .unit low :: rest =>
        if 0xDC00 ≤ low ∧ low < 0xE000 then
          (joinPieces rest).map
            (Char.ofNat (0x10000 + (high - 0xD800) * 0x400 + (low - 0xDC00)) :: ·)
        else none
      | _ => none
    else do
      let c ← unitChar? high
      let cs ← joinPieces rest
      return c :: cs

/-- Takes a hexadecimal digit. -/
def hexDigit : Reader Nat := do
  let c ← Reader.next
  Reader.ofOption (hexValue? c)

/-- Takes four hexadecimal digits. -/
def unit : Reader Nat := do
  let a ← hexDigit
  let b ← hexDigit
  let c ← hexDigit
  let d ← hexDigit
  return 0x1000 * a + 0x100 * b + 0x10 * c + d

/-- What a backslash and a character stand for. -/
def shortEscape? (c : Char) : Option Char :=
  match c with
  | '"' => some '"'
  | '\\' => some '\\'
  | '/' => some '/'
  | 'b' => some '\x08'
  | 'f' => some '\x0c'
  | 'n' => some '\n'
  | 'r' => some '\r'
  | 't' => some '\t'
  | _ => none

/-- Takes what follows a backslash. -/
def escape : Reader Piece := do
  let c ← Reader.next
  if c = 'u' then return .unit (← unit)
  else return .char (← Reader.ofOption (shortEscape? c))

/-- Takes one piece of a string, or its closing quote. -/
def stringStep (pieces : Array Piece) : Reader (Array Piece ⊕ Option String) := do
  let c ← Reader.next
  if c = '"' then return .inr ((joinPieces pieces.toList).map String.ofList)
  else if c = '\\' then return .inl (pieces.push (← escape))
  else if c.toNat < 0x20 then Reader.fail
  else return .inl (pieces.push (.char c))

theorem keeps_hexDigit : Keeps hexDigit :=
  keeps_bind Reader.keeps_next fun _ => Reader.keeps_ofOption _

theorem keeps_unit : Keeps unit :=
  keeps_bind keeps_hexDigit fun _ => keeps_bind keeps_hexDigit fun _ =>
    keeps_bind keeps_hexDigit fun _ => keeps_bind keeps_hexDigit fun _ => keeps_pure _

theorem keeps_escape : Keeps escape := by
  refine keeps_bind Reader.keeps_next fun c => ?_
  split
  · exact keeps_bind keeps_unit fun _ => keeps_pure _
  · exact keeps_bind (Reader.keeps_ofOption _) fun _ => keeps_pure _

theorem shrinks_stringStep (pieces : Array Piece) : Shrinks (stringStep pieces) := by
  refine shrinks_bind Reader.shrinks_next fun c => ?_
  split
  · exact keeps_pure _
  · split
    · exact keeps_bind keeps_escape fun _ => keeps_pure _
    · split
      · exact Reader.keeps_fail
      · exact keeps_pure _

/-- Takes a string after its opening quote. -/
def stringBody : Reader (Option String) :=
  iterate stringStep (fun pieces => (shrinks_stringStep pieces).advances) #[]

theorem keeps_stringBody : Keeps stringBody := keeps_iterate stringStep _ #[]

/-! ### Numbers and words -/

/-- Takes at least one digit. -/
def digits : Reader (List Char) := do
  let ds ← Reader.takeWhile isDigit
  if ds.isEmpty then Reader.fail else return ds

/-- Takes the digits of a whole number after the first: zero stands alone. -/
def wholeDigits (first : Char) : Reader (List Char) := do
  if first = '0' then return ['0']
  else if isDigit first then return first :: (← Reader.takeWhile isDigit)
  else Reader.fail

/-- Takes the digits after a point, if there is one. -/
def fraction : Reader (List Char) := do
  if (← Reader.peek) = some '.' then
    Reader.skip 1
    return '.' :: (← digits)
  else return []

/-- Takes the sign of an exponent, if there is one. -/
def exponentSign : Reader (List Char) := do
  match ← Reader.peek with
  | some c =>
    if c = '+' ∨ c = '-' then
      Reader.skip 1
      return [c]
    else return []
  | none => return []

/-- Takes an exponent, if there is one. -/
def exponent : Reader (List Char) := do
  match ← Reader.peek with
  | some c =>
    if c = 'e' ∨ c = 'E' then
      Reader.skip 1
      let sign ← exponentSign
      return c :: sign ++ (← digits)
    else return []
  | none => return []

/-- Takes the whole part of a number after its first character, which may be a minus sign. -/
def wholePart (first : Char) : Reader (List Char) := do
  if first = '-' then return '-' :: (← wholeDigits (← Reader.next))
  else wholeDigits first

/-- Takes a number after its first character. -/
def numberFrom (first : Char) : Reader Json := do
  let whole ← wholePart first
  let fraction ← fraction
  let exponent ← exponent
  return .number (String.ofList (whole ++ fraction ++ exponent))

/-- Takes the rest of a word that stands for a value. -/
def wordFrom (rest : String) (value : Json) : Reader Json := do
  if ← Reader.startsWith rest.toList then
    Reader.skip rest.length
    return value
  else Reader.fail

/-- Takes a value that is no array and no object, after its first character. -/
def scalarFrom (first : Char) : Reader Json := do
  match first with
  | '"' => return (← stringBody).elim .unreadable .string
  | 't' => wordFrom "rue" (.bool true)
  | 'f' => wordFrom "alse" (.bool false)
  | 'n' => wordFrom "ull" .null
  | c => numberFrom c

theorem keeps_digits : Keeps digits := by
  refine keeps_bind (Reader.keeps_takeWhile _) fun ds => ?_
  split
  · exact Reader.keeps_fail
  · exact keeps_pure _

theorem keeps_wholeDigits (first : Char) : Keeps (wholeDigits first) := by
  unfold wholeDigits
  split
  · exact keeps_pure _
  · split
    · exact keeps_bind (Reader.keeps_takeWhile _) fun _ => keeps_pure _
    · exact Reader.keeps_fail

theorem keeps_fraction : Keeps fraction := by
  refine keeps_bind Reader.keeps_peek fun _ => ?_
  split
  · exact keeps_bind (Reader.keeps_skip 1) fun _ => keeps_bind keeps_digits fun _ => keeps_pure _
  · exact keeps_pure _

theorem keeps_exponentSign : Keeps exponentSign := by
  refine keeps_bind Reader.keeps_peek fun _ => ?_
  split
  · split
    · exact keeps_bind (Reader.keeps_skip 1) fun _ => keeps_pure _
    · exact keeps_pure _
  · exact keeps_pure _

theorem keeps_exponent : Keeps exponent := by
  refine keeps_bind Reader.keeps_peek fun _ => ?_
  split
  · split
    · exact keeps_bind (Reader.keeps_skip 1) fun _ => keeps_bind keeps_exponentSign fun _ =>
        keeps_bind keeps_digits fun _ => keeps_pure _
    · exact keeps_pure _
  · exact keeps_pure _

theorem keeps_wholePart (first : Char) : Keeps (wholePart first) := by
  unfold wholePart
  split
  · exact keeps_bind Reader.keeps_next fun _ =>
      keeps_bind (keeps_wholeDigits _) fun _ => keeps_pure _
  · exact keeps_wholeDigits first

theorem keeps_numberFrom (first : Char) : Keeps (numberFrom first) :=
  keeps_bind (keeps_wholePart first) fun _ => keeps_bind keeps_fraction fun _ =>
    keeps_bind keeps_exponent fun _ => keeps_pure _

theorem keeps_wordFrom (rest : String) (value : Json) : Keeps (wordFrom rest value) := by
  refine keeps_bind (Reader.keeps_startsWith _) fun _ => ?_
  split
  · exact keeps_bind (Reader.keeps_skip _) fun _ => keeps_pure _
  · exact Reader.keeps_fail

theorem keeps_scalarFrom (first : Char) : Keeps (scalarFrom first) := by
  unfold scalarFrom
  split
  · exact keeps_bind keeps_stringBody fun _ => keeps_pure _
  · exact keeps_wordFrom _ _
  · exact keeps_wordFrom _ _
  · exact keeps_wordFrom _ _
  · exact keeps_numberFrom _

/-! ### Documents -/

/-- An array or object that has begun, with what was read of it. -/
inductive Frame
  | array (items : Array Json)
  /-- The key is that of the value to come; an object with an unreadable key is not readable. -/
  | object (fields : Array (String × Json)) (readable : Bool) (key : String)

/-- What is to come next. -/
inductive Stage
  /-- A value; directly after its opening bracket an array may also end. -/
  | value (first : Bool)
  /-- A key; directly after its opening brace an object may also end. -/
  | key (first : Bool)
  /-- A comma, or the end of the innermost array or object. -/
  | separator

/-- The value of a frame, once its end is reached. -/
def Frame.close : Frame → Json
  | .array items => .array items.toList
  | .object fields readable _ => if readable then .object fields.toList else .unreadable

/-- Puts a value into a frame. -/
def Frame.add (value : Json) : Frame → Frame
  | .array items => .array (items.push value)
  | .object fields readable key => .object (fields.push (key, value)) readable key

/-- Goes on after a value: it belongs to the innermost frame, or it is the document. -/
def supply (value : Json) : List Frame → (Stage × List Frame) ⊕ Json
  | [] => .inr value
  | frame :: outer => .inl (.separator, frame.add value :: outer)

/-- Ends the innermost frame. -/
def closeFrame : List Frame → Reader ((Stage × List Frame) ⊕ Json)
  | [] => Reader.fail
  | frame :: outer => return supply frame.close outer

/-- Whether a character is blank between the parts of a document. -/
def isBlank (c : Char) : Bool := c = ' ' || c = '\n' || c = '\r' || c = '\t'

/-- Passes over blanks. -/
def blanks : Reader Unit := do
  let _ ← Reader.takeWhile isBlank

/-- Goes on with a value that begins with `c`. -/
def valueFrom (first : Bool) (frames : List Frame) (c : Char) :
    Reader ((Stage × List Frame) ⊕ Json) := do
  if c = '[' then return .inl (.value true, .array #[] :: frames)
  else if c = '\x7b' then return .inl (.key true, .object #[] true "" :: frames)
  else if c = ']' ∧ first then closeFrame frames
  else return supply (← scalarFrom c) frames

/-- Goes on with a key that begins with `c`, and the colon after it. -/
def keyFrom (first : Bool) (frames : List Frame) (c : Char) :
    Reader ((Stage × List Frame) ⊕ Json) := do
  if c = '\x7d' ∧ first then closeFrame frames
  else if c = '"' then
    let key ← stringBody
    blanks
    Reader.expect ':'
    match frames with
    | .object fields readable _ :: outer =>
      return .inl (.value false, .object fields (readable && key.isSome) (key.getD "") :: outer)
    | _ => Reader.fail
  else Reader.fail

/-- Goes on after a value inside the innermost frame. -/
def separatorFrom (frames : List Frame) (c : Char) : Reader ((Stage × List Frame) ⊕ Json) := do
  match frames with
  | .array _ :: _ =>
    if c = ',' then return .inl (.value false, frames)
    else if c = ']' then closeFrame frames
    else Reader.fail
  | .object .. :: _ =>
    if c = ',' then return .inl (.key false, frames)
    else if c = '\x7d' then closeFrame frames
    else Reader.fail
  | [] => Reader.fail

/-- Goes on by one value, key, comma or bracket. -/
def documentStep (state : Stage × List Frame) : Reader ((Stage × List Frame) ⊕ Json) := do
  blanks
  let c ← Reader.next
  match state.1 with
  | .value first => valueFrom first state.2 c
  | .key first => keyFrom first state.2 c
  | .separator => separatorFrom state.2 c

theorem keeps_blanks : Keeps blanks := keeps_bind (Reader.keeps_takeWhile _) fun _ => keeps_pure _

theorem keeps_closeFrame (frames : List Frame) : Keeps (closeFrame frames) := by
  cases frames
  · exact Reader.keeps_fail
  · exact keeps_pure _

theorem keeps_valueFrom (first : Bool) (frames : List Frame) (c : Char) :
    Keeps (valueFrom first frames c) := by
  unfold valueFrom
  split
  · exact keeps_pure _
  · split
    · exact keeps_pure _
    · split
      · exact keeps_closeFrame frames
      · exact keeps_bind (keeps_scalarFrom c) fun _ => keeps_pure _

theorem keeps_keyFrom (first : Bool) (frames : List Frame) (c : Char) :
    Keeps (keyFrom first frames c) := by
  unfold keyFrom
  split
  · exact keeps_closeFrame frames
  · split
    · refine keeps_bind keeps_stringBody fun _ => keeps_bind keeps_blanks fun _ =>
        keeps_bind (Reader.shrinks_expect _).1 fun _ => ?_
      split
      · exact keeps_pure _
      · exact Reader.keeps_fail
    · exact Reader.keeps_fail

theorem keeps_separatorFrom (frames : List Frame) (c : Char) : Keeps (separatorFrom frames c) := by
  unfold separatorFrom
  split
  · split
    · exact keeps_pure _
    · split
      · exact keeps_closeFrame _
      · exact Reader.keeps_fail
  · split
    · exact keeps_pure _
    · split
      · exact keeps_closeFrame _
      · exact Reader.keeps_fail
  · exact Reader.keeps_fail

theorem shrinks_documentStep (state : Stage × List Frame) : Shrinks (documentStep state) := by
  refine shrinks_of_keeps_bind keeps_blanks fun _ => shrinks_bind Reader.shrinks_next fun c => ?_
  split
  · exact keeps_valueFrom _ _ c
  · exact keeps_keyFrom _ _ c
  · exact keeps_separatorFrom _ c

/-- Takes a document with the blanks around it. -/
def document : Reader Json := do
  let value ← iterate documentStep (fun s => (shrinks_documentStep s).advances) (.value false, [])
  blanks
  return value

/-- The document of a text. -/
def parse? (text : String) : Option Json := document.run? text.toList

end WidgetLayout.Json
