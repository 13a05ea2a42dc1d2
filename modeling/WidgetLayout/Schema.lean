/-
Schemas: the widgets, properties and enumeration values that a layout may use.

A schema is three lists of rows.  `Schema.index` turns it into symbol tables that answer six
questions: a row by its name, a widget by its tag, a property by its id, and the name of an
enumeration value.  Where a name, tag or id is given twice the last row answers; an enumeration
value keeps the name it was given first.  Tag and id 0 end a section of the byte format and the high
bit of a property id marks a binding, so a schema that is to be read back uses neither.
-/
import WidgetLayout.Dictionary

namespace WidgetLayout

/-- The type of the values of a property. -/
inductive ValueType
  | integer
  | number
  | enumeration
  | string
  | boolean
  | margins
  | sizeList
  | resource
deriving DecidableEq, Repr, Inhabited

/-- The name of a type in listings. -/
def ValueType.name : ValueType → String
  | .integer => "integer"
  | .number => "number"
  | .enumeration => "enumeration"
  | .string => "string"
  | .boolean => "boolean"
  | .margins => "margins"
  | .sizeList => "size-list"
  | .resource => "resource"

/-- The name of a type in JSON. -/
def ValueType.key : ValueType → String
  | .sizeList => "size_list"
  | t => t.name

/-- A kind of widget, with the byte that stands for it. -/
structure WidgetEntry where
  name : String
  tag : UInt8
deriving DecidableEq, Repr, Inhabited

/-- A property, with the byte that stands for it and the type of its values. -/
structure PropertyEntry where
  name : String
  id : UInt8
  type : ValueType
deriving DecidableEq, Repr, Inhabited

/-- A named value of an enumeration; all enumerations share one list of names. -/
structure EnumerationEntry where
  name : String
  value : UInt8
deriving DecidableEq, Repr, Inhabited

/-- The rows of a schema. -/
structure Schema where
  widgets : List WidgetEntry
  properties : List PropertyEntry
  enumerations : List EnumerationEntry

/-- The rows of a schema, indexed for every lookup. -/
structure SymbolTables where
  widgets : Dictionary String WidgetEntry
  properties : Dictionary String PropertyEntry
  enumerations : Dictionary String EnumerationEntry
  widgetsByTag : Dictionary UInt8 WidgetEntry
  propertiesById : Dictionary UInt8 PropertyEntry
  enumerationsByValue : Dictionary UInt8 EnumerationEntry

/-- Indexes the rows of a schema. -/
def Schema.index (s : Schema) : SymbolTables where
  widgets := .ofList (s.widgets.map fun w => (w.name, w))
  properties := .ofList (s.properties.map fun p => (p.name, p))
  enumerations := .ofList (s.enumerations.map fun e => (e.name, e))
  widgetsByTag := .ofList (s.widgets.map fun w => (w.tag, w))
  propertiesById := .ofList (s.properties.map fun p => (p.id, p))
  enumerationsByValue := s.enumerations.foldl (fun d e => d.putNew e.value e) .empty

namespace SymbolTables

/-- The widget of a name. -/
def widget? (t : SymbolTables) (name : String) : Option WidgetEntry := t.widgets.get? name

/-- The property of a name. -/
def property? (t : SymbolTables) (name : String) : Option PropertyEntry := t.properties.get? name

/-- The enumeration value of a name. -/
def enumeration? (t : SymbolTables) (name : String) : Option EnumerationEntry :=
  t.enumerations.get? name

/-- The widget that a byte stands for. -/
def widgetByTag? (t : SymbolTables) (tag : UInt8) : Option WidgetEntry := t.widgetsByTag.get? tag

/-- The property that a byte stands for. -/
def propertyById? (t : SymbolTables) (id : UInt8) : Option PropertyEntry := t.propertiesById.get? id

/-- The name of an enumeration value. -/
def enumerationName? (t : SymbolTables) (value : UInt8) : Option String :=
  (t.enumerationsByValue.get? value).map EnumerationEntry.name

end SymbolTables

/-! ### The shipped schema -/

/-- The schema that layouts are written against unless another one is given. -/
def Schema.shipped : Schema where
  widgets :=
    [⟨"Button", 1⟩, ⟨"Label", 2⟩, ⟨"ComboBox", 3⟩, ⟨"TreeView", 4⟩, ⟨"ListBox", 5⟩,
     ⟨"Picture", 6⟩, ⟨"TextBox", 7⟩, ⟨"CheckBox", 8⟩, ⟨"RadioButton", 9⟩, ⟨"ScrollView", 10⟩,
     ⟨"ScrollBar", 11⟩, ⟨"Slider", 12⟩, ⟨"ProgressBar", 13⟩, ⟨"SpinEdit", 14⟩,
     ⟨"Separator", 15⟩, ⟨"Spacer", 16⟩, ⟨"Panel", 17⟩, ⟨"Container", 18⟩, ⟨"TabLayout", 19⟩,
     ⟨"CanvasLayout", 20⟩, ⟨"FlowLayout", 21⟩, ⟨"GridLayout", 22⟩, ⟨"DockLayout", 23⟩,
     ⟨"StackLayout", 24⟩]
  properties :=
    [⟨"horizontalAlignment", 1, .enumeration⟩, ⟨"verticalAlignment", 2, .enumeration⟩,
     ⟨"margin", 3, .margins⟩, ⟨"padding", 4, .margins⟩, ⟨"dockSite", 5, .enumeration⟩,
     ⟨"visibility", 6, .enumeration⟩, ⟨"enabled", 7, .boolean⟩, ⟨"hitTestVisible", 8, .boolean⟩,
     ⟨"fontFamily", 9, .enumeration⟩, ⟨"text", 10, .string⟩, ⟨"minimum", 11, .number⟩,
     ⟨"maximum", 12, .number⟩, ⟨"value", 13, .number⟩, ⟨"image", 14, .resource⟩,
     ⟨"imageScaling", 15, .enumeration⟩, ⟨"rows", 16, .sizeList⟩, ⟨"columns", 17, .sizeList⟩,
     ⟨"left", 18, .integer⟩, ⟨"top", 19, .integer⟩, ⟨"orientation", 20, .enumeration⟩,
     ⟨"displayProgressStyle", 21, .enumeration⟩, ⟨"isChecked", 22, .boolean⟩,
     ⟨"tabTitle", 23, .string⟩, ⟨"selectedIndex", 24, .integer⟩, ⟨"columnSpan", 25, .integer⟩,
     ⟨"rowSpan", 26, .integer⟩, ⟨"toolTip", 27, .string⟩, ⟨"widthHint", 28, .integer⟩,
     ⟨"heightHint", 29, .integer⟩]
  enumerations :=
    [⟨"none", 0⟩, ⟨"left", 1⟩, ⟨"center", 2⟩, ⟨"right", 3⟩, ⟨"top", 4⟩, ⟨"middle", 5⟩,
     ⟨"bottom", 6⟩, ⟨"stretch", 7⟩, ⟨"visible", 8⟩, ⟨"hidden", 9⟩, ⟨"collapsed", 10⟩,
     ⟨"vertical", 11⟩, ⟨"horizontal", 12⟩, ⟨"sans", 13⟩, ⟨"serif", 14⟩, ⟨"monospace", 15⟩,
     ⟨"percent", 16⟩, ⟨"absolute", 17⟩, ⟨"zoom", 18⟩, ⟨"contain", 19⟩, ⟨"cover", 20⟩]

/-- The shipped schema, indexed. -/
def SymbolTables.shipped : SymbolTables := Schema.shipped.index

end WidgetLayout
