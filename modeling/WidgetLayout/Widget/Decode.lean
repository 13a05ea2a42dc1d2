/-
Reading a tree back from its bytes.

The schema says what each tag and id stands for and how the value of a property is written, so bytes
alone make up a tree.  Widgets that have begun and not ended are kept on a stack with what was read
of them; `decodeStep` reads one property, one end or the beginning of one child.  Bytes are not
trusted: a number of announced items is never believed before the items are there, and widgets nest
at most `maxDecodeDepth` deep.

Counts of 32 bits are taken as natural numbers, which no sum or product can overflow.  On a machine
this needs counters of 64 bits: with 32 bits the count of bytes that hold the tags of a size list
could wrap.
-/
import WidgetLayout.Error
import WidgetLayout.Progress
import WidgetLayout.Widget

namespace WidgetLayout

open WidgetLayout.Progress

/-- How deep the widgets of a byte document may be nested. -/
def maxDecodeDepth : Nat := 1024

/-- A cursor is worked off byte by byte. -/
instance : Measured Wire.Cursor := ⟨fun c => c.rest.length⟩

namespace Decode

/-- An action of decoding, which may fail. -/
abbrev Reader := Wire.Reader Error

/-- Fails because of what the bytes say. -/
def refuse {α : Type} (fault : DecodeFault) : Reader α := throw (.invalidFormat (.bytes fault))

/-- Reads a part of a document; a fault is reported where it left the cursor. -/
def read {α : Type} (part : WirePart) (m : Wire.Reader Wire.ReadFault α) : Reader α := fun c =>
  match m c with
  | .ok a c' => .ok a c'
  | .error fault c' => .error (.invalidFormat (.bytes (.unreadable part c'.offset fault))) c'

/-- Reads a byte. -/
def tag : Reader UInt8 := read .tag Wire.Reader.byte

/-- Reads a varint. -/
def varint : Reader UInt32 := read .varint Wire.Reader.varint

/-- Reads a single-precision number. -/
def single : Reader Single := read .float Wire.Reader.single

/-- How many bytes have been read. -/
def offset : Reader Nat := fun c => .ok c.offset c

/-! ### Values -/

/-- Reads a text. -/
def text : Reader String := do
  let bytes ← read .string Wire.Reader.string
  match Text.Utf8.decode bytes with
  | .ok cs => return String.ofList cs
  | .error fault => refuse (.notText (← offset) fault)

/-- Reads a truth value. -/
def boolean : Reader Bool := do
  let b ← tag
  if b = 0 then return false
  else if b = 1 then return true
  else refuse (.badBoolean b ((← offset) - 1))

/-- Reads four margins. -/
def margins : Reader Margins := do
  let a ← varint
  let b ← varint
  let c ← varint
  let d ← varint
  return ⟨a, b, c, d⟩

/-- The four tags of a byte, the one in the low bits first. -/
def unpackGroup (b : UInt8) : List UInt8 := [b &&& 3, b >>> 2 &&& 3, b >>> 4 &&& 3, b >>> 6 &&& 3]

/-- Reads the tags of `n` items, four to a byte. -/
def sizeTags (n : Nat) : Reader (List UInt8) := do
  if n = 0 then return []
  else
    let b ← tag
    let rest ← sizeTags (n - 4)
    return (unpackGroup b).take n ++ rest
termination_by n
decreasing_by omega

/-- Reads what an item with a tag carries. -/
def sizeItem (t : UInt8) : Reader SizeItem := do
  if t = 0 then return .auto
  else if t = 1 then return .expand
  else if t = 2 then return .pixels (← varint)
  else return .percentage (← single)

/-- Reads what the items with some tags carry. -/
def sizeItems : List UInt8 → Reader (List SizeItem)
  | [] => return []
  | t :: ts => do
    let item ← sizeItem t
    let items ← sizeItems ts
    return item :: items

/-- Reads a size list, which may not be empty.  The count is a natural number from here on, as one
of 64 bits would be; see above. -/
def sizeList : Reader (List SizeItem) := do
  let n ← varint
  if n = 0 then refuse (.emptySizeList (← offset))
  else
    let tags ← sizeTags n.toNat
    sizeItems tags

/-- Reads a value of a type. -/
def value : ValueType → Reader Value
  | .integer => .integer <$> varint
  | .number => .number <$> single
  | .enumeration => .enumeration <$> tag
  | .string => .string <$> text
  | .boolean => .boolean <$> boolean
  | .margins => .margins <$> margins
  | .sizeList => .sizeList <$> sizeList
  | .resource => .resource <$> varint

/-! ### Widgets -/

/-- A widget that has begun, with what was read of it. -/
structure Frame where
  name : String
  tag : UInt8
  properties : Array Property
  children : Array Widget

/-- The widget of a frame, once its end is reached. -/
def Frame.close (f : Frame) : Widget := ⟨f.name, f.tag, f.properties.toList, f.children.toList⟩

/-- The widgets that have begun: the innermost one, what is read of it now, and those around it. -/
structure Open where
  inChildren : Bool
  here : Frame
  outer : List Frame

/-- Reads a property whose first byte is `raw`. -/
def property (symbols : SymbolTables) (raw : UInt8) : Reader Property := do
  let id := raw &&& 0x7f
  match symbols.propertyById? id with
  | none => refuse (.unknownProperty id ((← offset) - 1))
  | some entry =>
    if raw &&& bindingFlag = 0 then return ⟨entry.name, id, .literal (← value entry.type)⟩
    else return ⟨entry.name, id, .binding (← varint)⟩

/-- Begins the widget of a tag that was just read, at a depth. -/
def begin (symbols : SymbolTables) (depth : Nat) (t : UInt8) : Reader Frame := do
  if maxDecodeDepth < depth then throw (.limitExceeded .decodedDepth maxDecodeDepth)
  else
    match symbols.widgetByTag? t with
    | none => refuse (.unknownTag t ((← offset) - 1))
    | some entry => return ⟨entry.name, t, #[], #[]⟩

/-- Ends the innermost widget: it becomes a child of the one around it, or it is the root. -/
def finish (here : Frame) : List Frame → Open ⊕ Widget
  | [] => .inr here.close
  | parent :: outer =>
      .inl ⟨true, { parent with children := parent.children.push here.close }, outer⟩

/-- Reads on by one property, by one end, or by the beginning of a child. -/
def decodeStep (symbols : SymbolTables) (state : Open) : Reader (Open ⊕ Widget) := do
  let b ← tag
  if state.inChildren then
    if b = terminator then return finish state.here state.outer
    else
      let child ← begin symbols (state.outer.length + 2) b
      return .inl ⟨false, child, state.here :: state.outer⟩
  else if b = terminator then return .inl { state with inChildren := true }
  else
    let p ← property symbols b
    return .inl { state with
      here := { state.here with properties := state.here.properties.push p } }

/-! ### Every step reads a byte -/

theorem keeps_offset : Keeps offset := fun _ => Nat.le_refl _

theorem keeps_refuse {α : Type} (fault : DecodeFault) : Keeps (refuse fault : Reader α) :=
  keeps_throw _

theorem keeps_read {α : Type} {part : WirePart} {m : Wire.Reader Wire.ReadFault α} (h : Keeps m) :
    Keeps (read part m) := by
  intro c
  have hc := h c
  unfold read
  split
  · rename_i hm
    rw [hm] at hc
    exact hc
  · rename_i hm
    rw [hm] at hc
    exact hc

theorem keeps_byte : Keeps Wire.Reader.byte := by
  intro c
  unfold Wire.Reader.byte
  split
  · exact Nat.le_refl _
  · rename_i b rest h
    simp [left, Measured.size, h]

theorem shrinks_tag : Shrinks tag := by
  refine ⟨keeps_read keeps_byte, ?_⟩
  intro c b c' h
  unfold tag read Wire.Reader.byte at h
  split at h
  · rename_i hm
    split at hm
    · simp at hm
    · rename_i b' rest hrest
      simp only [EStateM.Result.ok.injEq] at hm h
      rw [← h.2, ← hm.2]
      simp [Measured.size, hrest]
  · simp at h

theorem keeps_varintGroups (value n : Nat) : Keeps (Wire.Reader.varintGroups value n) := by
  induction n generalizing value with
  | zero => exact keeps_throw _
  | succ n ih =>
      refine keeps_bind keeps_byte fun b => ?_
      dsimp only
      split
      · split
        · exact keeps_pure _
        · exact keeps_throw _
      · exact ih _

theorem keeps_varint : Keeps varint := keeps_read (keeps_varintGroups 0 5)

theorem keeps_bytes (n : Nat) (fault : Wire.ReadFault) : Keeps (Wire.Reader.bytes n fault) := by
  intro c
  unfold Wire.Reader.bytes
  dsimp only
  split <;> simp [left, Measured.size, Wire.Cursor.skip]

theorem keeps_single : Keeps single :=
  keeps_read (keeps_bind (keeps_bytes 4 _) fun _ => keeps_pure _)

theorem keeps_text : Keeps text := by
  refine keeps_bind (keeps_read (keeps_bind (keeps_varintGroups 0 5) fun n => keeps_bytes _ _))
    fun bytes => ?_
  split
  · exact keeps_pure _
  · exact keeps_bind keeps_offset fun _ => keeps_refuse _

theorem keeps_boolean : Keeps boolean := by
  refine keeps_bind shrinks_tag.1 fun b => ?_
  split
  · exact keeps_pure _
  · split
    · exact keeps_pure _
    · exact keeps_bind keeps_offset fun _ => keeps_refuse _

theorem keeps_margins : Keeps margins :=
  keeps_bind keeps_varint fun _ => keeps_bind keeps_varint fun _ => keeps_bind keeps_varint fun _ =>
    keeps_bind keeps_varint fun _ => keeps_pure _

theorem keeps_sizeTags (n : Nat) : Keeps (sizeTags n) := by
  induction n using Nat.strongRecOn with
  | ind n ih =>
      unfold sizeTags
      split
      · exact keeps_pure _
      · exact keeps_bind shrinks_tag.1 fun b =>
          keeps_bind (ih (n - 4) (by omega)) fun _ => keeps_pure _

theorem keeps_sizeItem (t : UInt8) : Keeps (sizeItem t) := by
  unfold sizeItem
  split
  · exact keeps_pure _
  · split
    · exact keeps_pure _
    · split
      · exact keeps_bind keeps_varint fun _ => keeps_pure _
      · exact keeps_bind keeps_single fun _ => keeps_pure _

theorem keeps_sizeItems (ts : List UInt8) : Keeps (sizeItems ts) := by
  induction ts with
  | nil => exact keeps_pure _
  | cons t ts ih =>
      exact keeps_bind (keeps_sizeItem t) fun _ => keeps_bind ih fun _ => keeps_pure _

theorem keeps_sizeList : Keeps sizeList := by
  refine keeps_bind keeps_varint fun n => ?_
  split
  · exact keeps_bind keeps_offset fun _ => keeps_refuse _
  · exact keeps_bind (keeps_sizeTags _) fun tags => keeps_sizeItems tags

theorem keeps_value (type : ValueType) : Keeps (value type) := by
  cases type
  · exact keeps_map keeps_varint
  · exact keeps_map keeps_single
  · exact keeps_map shrinks_tag.1
  · exact keeps_map keeps_text
  · exact keeps_map keeps_boolean
  · exact keeps_map keeps_margins
  · exact keeps_map keeps_sizeList
  · exact keeps_map keeps_varint

theorem keeps_property (symbols : SymbolTables) (raw : UInt8) : Keeps (property symbols raw) := by
  unfold property
  dsimp only
  split
  · exact keeps_bind keeps_offset fun _ => keeps_refuse _
  · split
    · exact keeps_bind (keeps_value _) fun _ => keeps_pure _
    · exact keeps_bind keeps_varint fun _ => keeps_pure _

theorem keeps_begin (symbols : SymbolTables) (depth : Nat) (t : UInt8) :
    Keeps (begin symbols depth t) := by
  unfold begin
  split
  · exact keeps_throw _
  · split
    · exact keeps_bind keeps_offset fun _ => keeps_refuse _
    · exact keeps_pure _

theorem shrinks_decodeStep (symbols : SymbolTables) (state : Open) :
    Shrinks (decodeStep symbols state) := by
  refine shrinks_bind shrinks_tag fun b => ?_
  split
  · split
    · exact keeps_pure _
    · exact keeps_bind (keeps_begin symbols _ b) fun _ => keeps_pure _
  · split
    · exact keeps_pure _
    · exact keeps_bind (keeps_property symbols b) fun _ => keeps_pure _

/-! ### Documents -/

/-- Reads the root widget and everything inside it. -/
def root (symbols : SymbolTables) : Reader Widget := do
  let t ← tag
  let frame ← begin symbols 1 t
  iterate (decodeStep symbols) (fun b => (shrinks_decodeStep symbols b).advances) ⟨false, frame, []⟩

/-- The tree that bytes stand for; nothing may follow its root. -/
def decode (symbols : SymbolTables) (bytes : List UInt8) : Except Error Widget :=
  match root symbols (.start bytes) with
  | .error e _ => .error e
  | .ok w c =>
    if c.rest.isEmpty then .ok w
      else .error (.invalidFormat (.bytes (.trailingBytes c.rest.length)))

end Decode

end WidgetLayout
