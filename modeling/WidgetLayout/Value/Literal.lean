/-
Literals: how values are spelled in a source.

The declared type of a property says which form its literal has.  Every literal ends with exactly
one semicolon, which belongs to it.  Names in a literal are looked up as soon as its form is
complete: an enumeration value before its semicolon, a resource after it.
-/
import WidgetLayout.Bindings
import WidgetLayout.Compile

namespace WidgetLayout.Literal

open WidgetLayout.Compile WidgetLayout.Progress

variable {σ : Type} [TokenSource σ]

/-! ### Numbers -/

/-- The unsigned 32-bit number that an integer token stands for. -/
def integerOf (t : Token) : Compile σ UInt32 :=
  match Text.readUInt32 t.text.toList with
  | .ok n => pure n
  | .error _ => throw (.invalidValue t.position (.integerRange t.text))

/-- The single-precision number that `digits`, a part of a token, stands for. -/
def singleOf (t : Token) (digits : List Char) : Compile σ Single :=
  match Single.read digits with
  | .ok x => pure x
  | .error fault => throw (.invalidValue t.position (.number t.text fault))

/-- An integer. -/
def integer : Compile σ UInt32 := do
  let t ← accept .integer
  integerOf t

/-- An integer or a decimal number. -/
def number : Compile σ Single := do
  let t ← expect
  if t.kind = .integer ∨ t.kind = .number then singleOf t t.text.toList
  else throw (.unexpectedToken t.position .numberOrInteger t.text)

/-! ### Names and words -/

/-- An enumeration value by its name. -/
def enumeration (symbols : SymbolTables) : Compile σ UInt8 := do
  let t ← accept .identifier
  match symbols.enumeration? t.text with
  | some entry => return entry.value
  | none => throw (.unknownSymbol t.position .enumeration t.text)

/-- The truth value that a word stands for. -/
def boolean? (word : String) : Option Bool :=
  if word = "true" ∨ word = "yes" then some true
  else if word = "false" ∨ word = "no" then some false
  else none

/-- A truth value. -/
def boolean : Compile σ Bool := do
  let t ← accept .identifier
  match boolean? t.text with
  | some b => return b
  | none => throw (.invalidValue t.position (.boolean t.text))

/-! ### Margins -/

/-- The margins that the values before the token `t` stand for. -/
def broadcast (values : List UInt32) (t : Token) : Compile σ Margins :=
  match Margins.broadcast? values with
  | some m => pure m
  | none => throw (.invalidValue t.position .marginCount)

/-- The rest of margins, when up to `n` more values may follow the ones there are. -/
def moreMargins (values : List UInt32) : Nat → Compile σ Margins
  | 0 => do
    match ← peek with
    | some t =>
      if t.kind = .comma then throw (.invalidValue t.position .marginCount)
      else
        let t ← accept .semicolon
        broadcast values t
    | none =>
      let t ← accept .semicolon
      broadcast values t
  | n + 1 => do
    let t ← expect
    if t.kind = .semicolon then broadcast values t
    else if t.kind = .comma then
      let v ← integer
      moreMargins (values ++ [v]) n
    else throw (.unexpectedToken t.position .comma t.text)

/-- One, two or four integers with commas between them, and their semicolon. -/
def margins : Compile σ Margins := do
  match ← peek with
  | some t =>
    if t.kind = .semicolon then throw (.invalidValue t.position .marginCount)
    else
      let v ← integer
      moreMargins [v] 3
  | none =>
    let v ← integer
    moreMargins [v] 3

/-! ### Size lists -/

/-- A percentage token without the percent signs at its end. -/
def withoutPercent (cs : List Char) : List Char := (cs.reverse.dropWhile (· = '%')).reverse

/-- One item of a size list; a percentage is the product of its number with one hundredth. -/
def sizeItem : Compile σ SizeItem := do
  let t ← expect
  match t.kind with
  | .identifier =>
    if t.text = "auto" then return .auto
    else if t.text = "expand" then return .expand
    else throw (.invalidValue t.position (.sizeWord t.text))
  | .integer => return .pixels (← integerOf t)
  | .percentage =>
      return .percentage (Single.hundredth * (← singleOf t (withoutPercent t.text.toList)))
  | _ => throw (.unexpectedToken t.position .sizeItem t.text)

/-- What follows an item: the end of the list, or a comma and another item. -/
def sizeStep (items : Array SizeItem) : Compile σ (Array SizeItem ⊕ List SizeItem) := do
  let t ← expect
  if t.kind = .semicolon then return .inr items.toList
  else if t.kind = .comma then return .inl (items.push (← sizeItem))
  else throw (.unexpectedToken t.position .comma t.text)

theorem keeps_integerOf (t : Token) : Keeps (integerOf t : Compile σ UInt32) := by
  unfold integerOf
  split
  · exact keeps_pure _
  · exact keeps_throw _

theorem keeps_singleOf (t : Token) (digits : List Char) :
    Keeps (singleOf t digits : Compile σ Single) := by
  unfold singleOf
  split
  · exact keeps_pure _
  · exact keeps_throw _

theorem shrinks_sizeItem : Shrinks (sizeItem : Compile σ SizeItem) := by
  refine shrinks_bind shrinks_expect fun t => ?_
  split
  · split
    · exact keeps_pure _
    · split
      · exact keeps_pure _
      · exact keeps_throw _
  · exact keeps_bind (keeps_integerOf t) fun _ => keeps_pure _
  · exact keeps_bind (keeps_singleOf t _) fun _ => keeps_pure _
  · exact keeps_throw _

theorem shrinks_sizeStep (items : Array SizeItem) :
    Shrinks (sizeStep items : Compile σ (Array SizeItem ⊕ List SizeItem)) := by
  refine shrinks_bind shrinks_expect fun t => ?_
  split
  · exact keeps_pure _
  · split
    · exact keeps_bind shrinks_sizeItem.1 fun _ => keeps_pure _
    · exact keeps_throw _

/-- One or more items with commas between them, and their semicolon. -/
def sizeList : Compile σ (List SizeItem) := do
  let item ← sizeItem
  iterate sizeStep (fun items => (shrinks_sizeStep items).advances) #[item]

/-! ### Resources -/

/-- The number of a resource that is given by its name. -/
def resource (resources : BindingTable) : Compile σ UInt32 := do
  let word ← accept .identifier
  if word.text = "resource" then
    let _ ← accept .openParens
    let name ← accept .string
    let _ ← accept .closeParens
    let _ ← accept .semicolon
    match resources.get? name.text with
    | some id => return id
    | none => throw (.unknownSymbol name.position .resource name.text)
  else throw (.unexpectedToken word.position .resourceWord word.text)

/-! ### All forms -/

/-- Ends a literal that is complete but for its semicolon. -/
def ended {α : Type} (form : Compile σ α) : Compile σ α := do
  let a ← form
  let _ ← accept .semicolon
  return a

/-- A literal of a type, with its semicolon. -/
def parse (symbols : SymbolTables) (resources : BindingTable) : ValueType → Compile σ Value
  | .integer => .integer <$> ended integer
  | .number => .number <$> ended number
  | .enumeration => .enumeration <$> ended (enumeration symbols)
  | .string => (fun t => .string t.text) <$> ended (accept .string)
  | .boolean => .boolean <$> ended boolean
  | .margins => .margins <$> margins
  | .sizeList => .sizeList <$> sizeList
  | .resource => .resource <$> resource resources

/-- Why a value that does not fit cannot be written. -/
def lengthFault : Value → OutputFault
  | .sizeList _ => .sizeListTooLong
  | _ => .stringTooLong

/-- Writes a value. -/
def writeValue (v : Value) : Compile σ Unit :=
  if v.Fits then write v.encode else throw (.output (lengthFault v))

/-- Compiles a literal of a type: reads it and writes its value. -/
def encode (symbols : SymbolTables) (resources : BindingTable) (type : ValueType) :
    Compile σ Value := do
  let v ← parse symbols resources type
  writeValue v
  return v

/-! ### Literals give no token back -/

theorem keeps_integer : Keeps (integer : Compile σ UInt32) :=
  keeps_bind (shrinks_accept _).1 keeps_integerOf

theorem keeps_number : Keeps (number : Compile σ Single) := by
  refine keeps_bind shrinks_expect.1 fun t => ?_
  split
  · exact keeps_singleOf t _
  · exact keeps_throw _

theorem keeps_enumeration (symbols : SymbolTables) :
    Keeps (enumeration symbols : Compile σ UInt8) := by
  refine keeps_bind (shrinks_accept _).1 fun t => ?_
  split
  · exact keeps_pure _
  · exact keeps_throw _

theorem keeps_boolean : Keeps (boolean : Compile σ Bool) := by
  refine keeps_bind (shrinks_accept _).1 fun t => ?_
  split
  · exact keeps_pure _
  · exact keeps_throw _

theorem keeps_broadcast (values : List UInt32) (t : Token) :
    Keeps (broadcast values t : Compile σ Margins) := by
  unfold broadcast
  split
  · exact keeps_pure _
  · exact keeps_throw _

theorem keeps_moreMargins (values : List UInt32) (n : Nat) :
    Keeps (moreMargins values n : Compile σ Margins) := by
  induction n generalizing values with
  | zero =>
      refine keeps_bind keeps_peek fun front => ?_
      split
      · split
        · exact keeps_throw _
        · exact keeps_bind (shrinks_accept _).1 fun t => keeps_broadcast values t
      · exact keeps_bind (shrinks_accept _).1 fun t => keeps_broadcast values t
  | succ n ih =>
      refine keeps_bind shrinks_expect.1 fun t => ?_
      split
      · exact keeps_broadcast values t
      · split
        · exact keeps_bind keeps_integer fun v => ih (values ++ [v])
        · exact keeps_throw _

theorem keeps_margins : Keeps (margins : Compile σ Margins) := by
  refine keeps_bind keeps_peek fun front => ?_
  split
  · split
    · exact keeps_throw _
    · exact keeps_bind keeps_integer fun v => keeps_moreMargins [v] 3
  · exact keeps_bind keeps_integer fun v => keeps_moreMargins [v] 3

theorem keeps_sizeList : Keeps (sizeList : Compile σ (List SizeItem)) :=
  keeps_bind shrinks_sizeItem.1 fun item => keeps_iterate sizeStep _ #[item]

theorem keeps_resource (resources : BindingTable) :
    Keeps (resource resources : Compile σ UInt32) := by
  refine keeps_bind (shrinks_accept _).1 fun word => ?_
  split
  · refine keeps_bind (shrinks_accept _).1 fun _ => keeps_bind (shrinks_accept _).1 fun name =>
      keeps_bind (shrinks_accept _).1 fun _ => keeps_bind (shrinks_accept _).1 fun _ => ?_
    split
    · exact keeps_pure _
    · exact keeps_throw _
  · exact keeps_throw _

theorem keeps_ended {α : Type} {form : Compile σ α} (h : Keeps form) : Keeps (ended form) :=
  keeps_bind h fun _ => keeps_bind (shrinks_accept _).1 fun _ => keeps_pure _

theorem keeps_parse (symbols : SymbolTables) (resources : BindingTable) (type : ValueType) :
    Keeps (parse symbols resources type : Compile σ Value) := by
  cases type
  · exact keeps_map (keeps_ended keeps_integer)
  · exact keeps_map (keeps_ended keeps_number)
  · exact keeps_map (keeps_ended (keeps_enumeration symbols))
  · exact keeps_map (keeps_ended (shrinks_accept _).1)
  · exact keeps_map (keeps_ended keeps_boolean)
  · exact keeps_map keeps_margins
  · exact keeps_map keeps_sizeList
  · exact keeps_map (keeps_resource resources)

theorem keeps_writeValue (v : Value) : Keeps (writeValue v : Compile σ Unit) := by
  unfold writeValue
  split
  · exact keeps_write v.encode
  · exact keeps_throw _

theorem keeps_encode (symbols : SymbolTables) (resources : BindingTable) (type : ValueType) :
    Keeps (encode symbols resources type : Compile σ Value) :=
  keeps_bind (keeps_parse symbols resources type) fun v =>
    keeps_bind (keeps_writeValue v) fun _ => keeps_pure _

end WidgetLayout.Literal
