/-
Reading TOML documents from their text.

A document is lines: a header, a key with its value, or nothing, and then perhaps a comment.  Only
arrays and strings in triple quotes go over several lines.  Values are nested at most `maxNesting`
deep and a dotted key has at most as many parts.  A carriage return before the end of a line belongs
to it, and no other carriage return is allowed, so the ends of lines are made alike before anything
is read.
-/
import WidgetLayout.Text.Reader
import WidgetLayout.Toml.Scalar

namespace WidgetLayout.Toml

open WidgetLayout.Progress WidgetLayout.Text

/-- How deep arrays and inline tables may be nested, and how many parts a key may have. -/
def maxNesting : Nat := 79

/-! ### Blanks and comments -/

/-- Whether a character is blank inside a line. -/
def isBlank (c : Char) : Bool := c = ' ' || c = '\t'

/-- Whether a character may stand in a comment, and in a string where it has no meaning of its
own. -/
def isPlain (c : Char) : Bool := c = '\t' || 0x20 ≤ c.toNat && c.toNat ≠ 0x7F

/-- The text with a mere newline at the end of every line. -/
def joinLineEnds : List Char → List Char
  | [] => []
  | '\r' :: '\n' :: cs => '\n' :: joinLineEnds cs
  | c :: cs => c :: joinLineEnds cs

/-- Passes over blanks. -/
def blanks : Reader Unit := do
  let _ ← Reader.takeWhile isBlank

/-- Takes the end of a line, or is at the end of the document. -/
def newlineOrEnd : Reader Unit := do
  if (← Reader.peek).isNone then return () else Reader.expect '\n'

/-- Takes a comment, if there is one. -/
def comment : Reader Unit := do
  if (← Reader.peek) = some '#' then
    let _ ← Reader.takeWhile isPlain
  else return ()

/-- Takes what may follow on a line: blanks, a comment and the end of the line. -/
def restOfLine : Reader Unit := do
  blanks
  comment
  newlineOrEnd

/-- Drops blanks, ends of lines and comments; `inComment` says whether a comment has begun. -/
def dropGap (inComment : Bool) : List Char → Option (List Char)
  | [] => if inComment then none else some []
  | c :: cs =>
    if c = '\n' then dropGap false cs
    else if inComment then if isPlain c then dropGap true cs else none
    else if isBlank c then dropGap false cs
    else if c = '#' then dropGap true cs
    else some (c :: cs)

/-- Passes over blanks, ends of lines and comments between the parts of an array. -/
def gap : Reader Unit := fun cs =>
  match dropGap false cs with
  | some rest => .ok () rest
  | none => .error () cs

theorem keeps_blanks : Keeps blanks := keeps_bind (Reader.keeps_takeWhile _) fun _ => keeps_pure _

theorem keeps_newlineOrEnd : Keeps newlineOrEnd := by
  refine keeps_bind Reader.keeps_peek fun _ => ?_
  split
  · exact keeps_pure _
  · exact (Reader.shrinks_expect _).1

theorem keeps_comment : Keeps comment := by
  refine keeps_bind Reader.keeps_peek fun _ => ?_
  split
  · exact keeps_bind (Reader.keeps_takeWhile _) fun _ => keeps_pure _
  · exact keeps_pure _

theorem keeps_restOfLine : Keeps restOfLine :=
  keeps_bind keeps_blanks fun _ => keeps_bind keeps_comment fun _ => keeps_newlineOrEnd

theorem length_dropGap_le (inComment : Bool) (cs rest : List Char)
    (h : dropGap inComment cs = some rest) : rest.length ≤ cs.length := by
  fun_induction dropGap inComment cs <;> grind

theorem keeps_gap : Keeps gap := by
  intro cs
  unfold gap
  split
  · exact length_dropGap_le false cs _ ‹_›
  · exact Nat.le_refl _

/-! ### Strings -/

/-- The number of `n` hexadecimal digits. -/
def hexNumber : Nat → Nat → Reader Nat
  | value, 0 => return value
  | value, n + 1 => do
    let c ← Reader.next
    let d ← Reader.ofOption (hexValue? c)
    hexNumber (16 * value + d) n

/-- The character of a number of `n` hexadecimal digits. -/
def scalarValue (n : Nat) : Reader Char := do
  let value ← hexNumber 0 n
  if value.isValidChar then return Char.ofNat value else Reader.fail

/-- What a backslash and a character stand for. -/
def shortEscape? (c : Char) : Option Char :=
  match c with
  | '"' => some '"'
  | '\\' => some '\\'
  | 'b' => some '\x08'
  | 'f' => some '\x0c'
  | 'n' => some '\n'
  | 'r' => some '\r'
  | 't' => some '\t'
  | _ => none

/-- Takes what follows a backslash. -/
def escape : Reader Char := do
  let c ← Reader.next
  if c = 'u' then scalarValue 4
  else if c = 'U' then scalarValue 8
  else Reader.ofOption (shortEscape? c)

/-- Takes one character of a string between quotes, or the closing quote. -/
def basicStep (text : Array Char) : Reader (Array Char ⊕ List Char) := do
  let c ← Reader.next
  if c = '"' then return .inr text.toList
  else if c = '\\' then return .inl (text.push (← escape))
  else if isPlain c then return .inl (text.push c)
  else Reader.fail

/-- Takes one character of a string between apostrophes, or the closing apostrophe. -/
def literalStep (text : Array Char) : Reader (Array Char ⊕ List Char) := do
  let c ← Reader.next
  if c = '\'' then return .inr text.toList
  else if isPlain c then return .inl (text.push c)
  else Reader.fail

/-- Takes the quotes that follow a first one, at most `n` of them, and says how many there were. -/
def moreQuotes (quote : Char) : Nat → Reader Nat
  | 0 => return 0
  | n + 1 => do
    if (← Reader.peek) = some quote then
      Reader.skip 1
      return 1 + (← moreQuotes quote n)
    else return 0

/-- Takes the quotes after a first one inside a string in triple quotes.  Fewer than three of them
belong to the string; three end it, and up to two more before those still belong to it.
-/
def quotesStep (quote : Char) (text : Array Char) : Reader (Array Char ⊕ List Char) := do
  let count ← moreQuotes quote 4
  if count < 2 then return .inl (text ++ List.replicate (1 + count) quote)
  else return .inr (text.toList ++ List.replicate (count - 2) quote)

/-- Takes what follows a backslash in a string in triple quotes; at the end of a line it joins
lines. -/
def multiLineEscape (text : Array Char) : Reader (Array Char) := fun cs =>
  match cs.dropWhile isBlank with
  | '\n' :: rest => .ok text (rest.dropWhile fun c => isBlank c || c = '\n')
  | _ => (do return text.push (← escape)) cs

/-- Takes one character of a string in triple quotes, or its closing quotes. -/
def multiBasicStep (text : Array Char) : Reader (Array Char ⊕ List Char) := do
  let c ← Reader.next
  if c = '"' then quotesStep '"' text
  else if c = '\\' then return .inl (← multiLineEscape text)
  else if isPlain c ∨ c = '\n' then return .inl (text.push c)
  else Reader.fail

/-- Takes one character of a string in triple apostrophes, or its closing apostrophes. -/
def multiLiteralStep (text : Array Char) : Reader (Array Char ⊕ List Char) := do
  let c ← Reader.next
  if c = '\'' then quotesStep '\'' text
  else if isPlain c ∨ c = '\n' then return .inl (text.push c)
  else Reader.fail

theorem keeps_hexNumber (value n : Nat) : Keeps (hexNumber value n) := by
  induction n generalizing value with
  | zero => exact keeps_pure _
  | succ n ih =>
      exact keeps_bind Reader.keeps_next fun _ => keeps_bind (Reader.keeps_ofOption _) fun _ => ih _

theorem keeps_scalarValue (n : Nat) : Keeps (scalarValue n) := by
  refine keeps_bind (keeps_hexNumber 0 n) fun value => ?_
  split
  · exact keeps_pure _
  · exact Reader.keeps_fail

theorem keeps_escape : Keeps escape := by
  refine keeps_bind Reader.keeps_next fun c => ?_
  split
  · exact keeps_scalarValue 4
  · split
    · exact keeps_scalarValue 8
    · exact Reader.keeps_ofOption _

theorem shrinks_basicStep (text : Array Char) : Shrinks (basicStep text) := by
  refine shrinks_bind Reader.shrinks_next fun c => ?_
  split
  · exact keeps_pure _
  · split
    · exact keeps_bind keeps_escape fun _ => keeps_pure _
    · split
      · exact keeps_pure _
      · exact Reader.keeps_fail

theorem shrinks_literalStep (text : Array Char) : Shrinks (literalStep text) := by
  refine shrinks_bind Reader.shrinks_next fun c => ?_
  split
  · exact keeps_pure _
  · split
    · exact keeps_pure _
    · exact Reader.keeps_fail

theorem keeps_moreQuotes (quote : Char) (n : Nat) : Keeps (moreQuotes quote n) := by
  induction n with
  | zero => exact keeps_pure _
  | succ n ih =>
      refine keeps_bind Reader.keeps_peek fun _ => ?_
      split
      · exact keeps_bind (Reader.keeps_skip 1) fun _ => keeps_bind ih fun _ => keeps_pure _
      · exact keeps_pure _

theorem keeps_quotesStep (quote : Char) (text : Array Char) : Keeps (quotesStep quote text) := by
  refine keeps_bind (keeps_moreQuotes quote 4) fun _ => ?_
  split
  · exact keeps_pure _
  · exact keeps_pure _

theorem keeps_multiLineEscape (text : Array Char) : Keeps (multiLineEscape text) := by
  intro cs
  unfold multiLineEscape
  split
  · rename_i rest h
    have hle := (List.dropWhile_suffix isBlank (l := cs)).length_le
    have hrest := (List.dropWhile_suffix (fun c => isBlank c || c = '\n') (l := rest)).length_le
    rw [h, List.length_cons] at hle
    simp only [left, Measured.size]
    omega
  · exact keeps_bind keeps_escape (fun _ => keeps_pure _) cs

theorem shrinks_multiBasicStep (text : Array Char) : Shrinks (multiBasicStep text) := by
  refine shrinks_bind Reader.shrinks_next fun c => ?_
  split
  · exact keeps_quotesStep _ text
  · split
    · exact keeps_bind (keeps_multiLineEscape text) fun _ => keeps_pure _
    · split
      · exact keeps_pure _
      · exact Reader.keeps_fail

theorem shrinks_multiLiteralStep (text : Array Char) : Shrinks (multiLiteralStep text) := by
  refine shrinks_bind Reader.shrinks_next fun c => ?_
  split
  · exact keeps_quotesStep _ text
  · split
    · exact keeps_pure _
    · exact Reader.keeps_fail

/-- Takes a string between quotes, after the first one. -/
def basicString : Reader (List Char) :=
  iterate basicStep (fun text => (shrinks_basicStep text).advances) #[]

/-- Takes a string between apostrophes, after the first one. -/
def literalString : Reader (List Char) :=
  iterate literalStep (fun text => (shrinks_literalStep text).advances) #[]

/-- Passes over an end of line directly after triple quotes. -/
def openingNewline : Reader Unit := do
  if (← Reader.peek) = some '\n' then Reader.skip 1 else return ()

/-- Takes a string in triple quotes, after those. -/
def multiBasicString : Reader (List Char) := do
  openingNewline
  iterate multiBasicStep (fun text => (shrinks_multiBasicStep text).advances) #[]

/-- Takes a string in triple apostrophes, after those. -/
def multiLiteralString : Reader (List Char) := do
  openingNewline
  iterate multiLiteralStep (fun text => (shrinks_multiLiteralStep text).advances) #[]

/-- Takes a string after its first quote, which may be the first of three. -/
def stringFrom (quote : Char) : Reader (List Char) := do
  if ← Reader.startsWith [quote, quote] then
    Reader.skip 2
    if quote = '"' then multiBasicString else multiLiteralString
  else if quote = '"' then basicString
  else literalString

theorem keeps_openingNewline : Keeps openingNewline := by
  refine keeps_bind Reader.keeps_peek fun _ => ?_
  split
  · exact Reader.keeps_skip 1
  · exact keeps_pure _

theorem keeps_stringFrom (quote : Char) : Keeps (stringFrom quote) := by
  refine keeps_bind (Reader.keeps_startsWith _) fun _ => ?_
  split
  · refine keeps_bind (Reader.keeps_skip 2) fun _ => ?_
    split
    · exact keeps_bind keeps_openingNewline fun _ => keeps_iterate _ _ _
    · exact keeps_bind keeps_openingNewline fun _ => keeps_iterate _ _ _
  · split
    · exact keeps_iterate _ _ _
    · exact keeps_iterate _ _ _

/-! ### Keys -/

/-- Whether a character may stand in a key without quotes. -/
def isBareKey (c : Char) : Bool :=
  isDigit c || 'a' ≤ c && c ≤ 'z' || 'A' ≤ c && c ≤ 'Z' || c = '-' || c = '_'

/-- Takes one part of a key. -/
def simpleKey : Reader String := do
  match ← Reader.peek with
  | some '"' =>
    Reader.skip 1
    return String.ofList (← basicString)
  | some '\'' =>
    Reader.skip 1
    return String.ofList (← literalString)
  | _ =>
    let cs ← Reader.takeWhile isBareKey
    if cs.isEmpty then Reader.fail else return String.ofList cs

/-- Takes a part of a key, and the point after it if it is not the last one. -/
def keyStep (parts : Array String) : Reader (Array String ⊕ (List String × String)) := do
  blanks
  let part ← simpleKey
  blanks
  if (← Reader.peek) = some '.' then
    Reader.expect '.'
    return .inl (parts.push part)
  else return .inr (parts.toList, part)

theorem keeps_simpleKey : Keeps simpleKey := by
  refine keeps_bind Reader.keeps_peek fun _ => ?_
  split
  · exact keeps_bind (Reader.keeps_skip 1) fun _ =>
      keeps_bind (keeps_iterate _ _ _) fun _ => keeps_pure _
  · exact keeps_bind (Reader.keeps_skip 1) fun _ =>
      keeps_bind (keeps_iterate _ _ _) fun _ => keeps_pure _
  · refine keeps_bind (Reader.keeps_takeWhile _) fun cs => ?_
    split
    · exact Reader.keeps_fail
    · exact keeps_pure _

theorem advances_keyStep (parts : Array String) : Advances (keyStep parts) := by
  refine advances_bind keeps_blanks fun _ => advances_bind keeps_simpleKey fun part =>
    advances_bind keeps_blanks fun _ => advances_bind Reader.keeps_peek fun _ => ?_
  split
  · exact (shrinks_bind (Reader.shrinks_expect _) fun _ => keeps_pure _).advances
  · exact advances_done _

/-- Takes a dotted key: all parts but the last, and the last. -/
def dottedKey : Reader (List String × String) := do
  let key ← iterate keyStep advances_keyStep #[]
  if key.1.length < maxNesting then return key else Reader.fail

theorem keeps_dottedKey : Keeps dottedKey := by
  refine keeps_bind (keeps_iterate _ _ _) fun key => ?_
  split
  · exact keeps_pure _
  · exact Reader.keeps_fail

/-! ### Values -/

/-- Whether a character may stand in a value that is one word. -/
def isWordChar (c : Char) : Bool := isBareKey c || c = '+' || c = '.' || c = ':'

/-- Takes the time of day that may follow a date and a blank. -/
def timeAfterDate (date : List Char) : Reader Toml := do
  Reader.skip 1
  let time ← Reader.takeWhile isWordChar
  if isOffsetTime time then return .dateTime (String.ofList (date ++ ' ' :: time)) else Reader.fail

/-- Whether the text goes on with a blank and a digit. -/
def blankAndDigit : Reader Bool := fun cs =>
  match cs with
  | ' ' :: c :: _ => .ok (isDigit c) cs
  | _ => .ok false cs

/-- Takes a value that is one word, or a date with a time after a blank. -/
def wordValue : Reader Toml := do
  let word ← Reader.takeWhile isWordChar
  if isDate word ∧ (← blankAndDigit) then timeAfterDate word
  else Reader.ofOption (scalar? word)

/-- Takes a value that holds no other values. -/
def flatValue : Reader Toml := do
  match ← Reader.peek with
  | some '"' =>
    Reader.skip 1
    return .string (String.ofList (← stringFrom '"'))
  | some '\'' =>
    Reader.skip 1
    return .string (String.ofList (← stringFrom '\''))
  | _ => wordValue

theorem keeps_timeAfterDate (date : List Char) : Keeps (timeAfterDate date) := by
  refine keeps_bind (Reader.keeps_skip 1) fun _ =>
    keeps_bind (Reader.keeps_takeWhile _) fun time => ?_
  split
  · exact keeps_pure _
  · exact Reader.keeps_fail

theorem keeps_blankAndDigit : Keeps blankAndDigit := by
  intro cs
  unfold blankAndDigit
  split <;> exact Nat.le_refl _

theorem keeps_wordValue : Keeps wordValue := by
  refine keeps_bind (Reader.keeps_takeWhile _) fun word =>
    keeps_bind keeps_blankAndDigit fun _ => ?_
  split
  · exact keeps_timeAfterDate word
  · exact Reader.keeps_ofOption _

theorem keeps_flatValue : Keeps flatValue := by
  refine keeps_bind Reader.keeps_peek fun _ => ?_
  split
  · exact keeps_bind (Reader.keeps_skip 1) fun _ =>
      keeps_bind (keeps_stringFrom _) fun _ => keeps_pure _
  · exact keeps_bind (Reader.keeps_skip 1) fun _ =>
      keeps_bind (keeps_stringFrom _) fun _ => keeps_pure _
  · exact keeps_wordValue

/-- Takes an item of an array with what follows it, or the closing bracket after a comma. -/
def itemStep (item : Reader Toml) (items : Array Toml) : Reader (Array Toml ⊕ Toml) := do
  gap
  if (← Reader.peek) = some ']' then
    Reader.skip 1
    return .inr (.array items.toList)
  else
    let v ← item
    gap
    let c ← Reader.next
    if c = ',' then return .inl (items.push v)
    else if c = ']' then return .inr (.array (items.push v).toList)
    else Reader.fail

/-- Takes a key of an inline table with its value and what follows it. -/
def entryStep (item : Reader Toml) (t : Table) : Reader (Table ⊕ Toml) := do
  let (path, key) ← dottedKey
  Reader.expect '='
  blanks
  let v ← item
  blanks
  let t ← Reader.ofOption (t.assign? path key v)
  let c ← Reader.next
  if c = ',' then return .inl t
  else if c = '\x7d' then return .inr t.value
  else Reader.fail

theorem advances_itemStep {item : Reader Toml} (h : Keeps item) (items : Array Toml) :
    Advances (itemStep item items) := by
  refine advances_bind keeps_gap fun _ => advances_bind Reader.keeps_peek fun _ => ?_
  split
  · exact advances_bind (Reader.keeps_skip 1) fun _ => advances_done _
  · refine (shrinks_of_keeps_bind h fun v => shrinks_of_keeps_bind keeps_gap fun _ =>
      shrinks_bind Reader.shrinks_next fun c => ?_).advances
    split
    · exact keeps_pure _
    · split
      · exact keeps_pure _
      · exact Reader.keeps_fail

theorem advances_entryStep {item : Reader Toml} (h : Keeps item) (t : Table) :
    Advances (entryStep item t) := by
  refine (shrinks_of_keeps_bind keeps_dottedKey fun key => ?_).advances
  refine shrinks_bind (Reader.shrinks_expect _) fun _ => keeps_bind keeps_blanks fun _ =>
    keeps_bind h fun v => keeps_bind keeps_blanks fun _ =>
      keeps_bind (Reader.keeps_ofOption _) fun t =>
      keeps_bind Reader.keeps_next fun c => ?_
  split
  · exact keeps_pure _
  · split
    · exact keeps_pure _
    · exact Reader.keeps_fail

/-- Takes an inline table, after its brace; only the first key may be missing. -/
def inlineTable (item : Reader Toml) (h : Keeps item) : Reader Toml := do
  blanks
  if (← Reader.peek) = some '\x7d' then
    Reader.skip 1
    return .table .inline []
  else iterate (entryStep item) (advances_entryStep h) (.empty .inline)

/-- Takes an array, an inline table or a flat value, whose parts are read by `item`. -/
def nestedValue (item : Reader Toml) (h : Keeps item) : Reader Toml := do
  match ← Reader.peek with
  | some '[' =>
    Reader.skip 1
    iterate (itemStep item) (advances_itemStep h) #[]
  | some '\x7b' =>
    Reader.skip 1
    inlineTable item h
  | _ => flatValue

theorem keeps_nestedValue {item : Reader Toml} (h : Keeps item) : Keeps (nestedValue item h) := by
  refine keeps_bind Reader.keeps_peek fun _ => ?_
  split
  · exact keeps_bind (Reader.keeps_skip 1) fun _ => keeps_iterate _ _ _
  · refine keeps_bind (Reader.keeps_skip 1) fun _ => keeps_bind keeps_blanks fun _ =>
      keeps_bind Reader.keeps_peek fun _ => ?_
    split
    · exact keeps_bind (Reader.keeps_skip 1) fun _ => keeps_pure _
    · exact keeps_iterate _ _ _
  · exact keeps_flatValue

/-- The reader of values that are nested at most `n` deep. -/
def valueReader : Nat → { m : Reader Toml // Keeps m }
  | 0 => ⟨flatValue, keeps_flatValue⟩
  | n + 1 => ⟨nestedValue (valueReader n).1 (valueReader n).2, keeps_nestedValue _⟩

/-- Takes a value. -/
def value : Reader Toml := (valueReader maxNesting).1

/-! ### Documents -/

/-- Takes a header, after its first bracket. -/
def header (d : Document) : Reader Document := do
  if (← Reader.peek) = some '[' then
    Reader.skip 1
    let (path, key) ← dottedKey
    Reader.expect ']'
    Reader.expect ']'
    Reader.ofOption (d.openItem? path key)
  else
    let (path, key) ← dottedKey
    Reader.expect ']'
    Reader.ofOption (d.openTable? path key)

/-- Takes a key with its value. -/
def assignment (d : Document) : Reader Document := do
  let (path, key) ← dottedKey
  Reader.expect '='
  blanks
  let v ← value
  Reader.ofOption (d.assign? path key v)

/-- Takes a line, or is done at the end of the text. -/
def lineStep (d : Document) : Reader (Document ⊕ Document) := do
  blanks
  match ← Reader.peek with
  | none => return .inr d
  | some '\n' =>
    Reader.expect '\n'
    return .inl d
  | some '#' =>
    Reader.expect '#'
    let _ ← Reader.takeWhile isPlain
    newlineOrEnd
    return .inl d
  | some '[' =>
    Reader.expect '['
    let d ← header d
    restOfLine
    return .inl d
  | some _ =>
    let d ← assignment d
    restOfLine
    return .inl d

theorem keeps_header (d : Document) : Keeps (header d) := by
  refine keeps_bind Reader.keeps_peek fun _ => ?_
  split
  · exact keeps_bind (Reader.keeps_skip 1) fun _ => keeps_bind keeps_dottedKey fun key =>
      keeps_bind (Reader.shrinks_expect _).1 fun _ =>
        keeps_bind (Reader.shrinks_expect _).1 fun _ =>
        Reader.keeps_ofOption _
  · exact keeps_bind keeps_dottedKey fun key => keeps_bind (Reader.shrinks_expect _).1 fun _ =>
      Reader.keeps_ofOption _

theorem shrinks_assignment (d : Document) : Shrinks (assignment d) :=
  shrinks_of_keeps_bind keeps_dottedKey fun _ => shrinks_bind (Reader.shrinks_expect _) fun _ =>
    keeps_bind keeps_blanks fun _ => keeps_bind (valueReader maxNesting).2 fun _ =>
      Reader.keeps_ofOption _

theorem advances_lineStep (d : Document) : Advances (lineStep d) := by
  refine advances_bind keeps_blanks fun _ => advances_bind Reader.keeps_peek fun _ => ?_
  split
  · exact advances_done _
  · exact (shrinks_bind (Reader.shrinks_expect _) fun _ => keeps_pure _).advances
  · exact (shrinks_bind (Reader.shrinks_expect _) fun _ =>
      keeps_bind (Reader.keeps_takeWhile _) fun _ =>
      keeps_bind keeps_newlineOrEnd fun _ => keeps_pure _).advances
  · exact (shrinks_bind (Reader.shrinks_expect _) fun _ => keeps_bind (keeps_header d) fun _ =>
      keeps_bind keeps_restOfLine fun _ => keeps_pure _).advances
  · exact (shrinks_bind (shrinks_assignment d) fun _ => keeps_bind keeps_restOfLine fun _ =>
      keeps_pure _).advances

/-- Drops the mark that may stand before a text. -/
def dropByteOrderMark : List Char → List Char
  | '\uFEFF' :: cs => cs
  | cs => cs

/-- The entries of the document of a text. -/
def parse? (text : String) : Option (List (String × Toml)) := do
  let lines := iterate lineStep advances_lineStep Document.start
  let d ← Reader.run? lines (joinLineEnds (dropByteOrderMark text.toList))
  return d.root.entries

end WidgetLayout.Toml
