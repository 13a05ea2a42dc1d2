/-
What the tables of a schema answer, whatever rows they are made of.

Rows may repeat names, tags, ids and values.  Five of the six lookups go to a table of all rows
under one of their keys, and there the last row with a key answers.  The sixth goes from an
enumeration value to a name and keeps the row that came first, so an older name of a value is still
the one that is shown after another name was added.

A compiler asks by name and a decoder by tag and id.  Where no two rows share a name and none share
a tag, both directions ask the same rows, and going there and back ends where it began.  Enumeration
values may be shared and still lead back to themselves: the name that is shown is a name of the
value, and names are not shared.
-/
import WidgetLayout.Proofs.Declared

namespace WidgetLayout

/-! ### Rows with a key

Five of the six tables hold rows under a key of theirs, so what their lookups answer is proved for
any rows and any key. -/

section Rows

variable {κ ι α : Type} {key : α → κ} {key' : α → ι} {rows : List α} {k : κ} {row : α}

/-- This is the first of the rows that have the key. -/
def FirstWith (key : α → κ) (rows : List α) (k : κ) (row : α) : Prop :=
  ∃ before after, rows = before ++ row :: after ∧ key row = k ∧ ∀ other ∈ before, key other ≠ k

/-- This is the last of the rows that have the key. -/
def LastWith (key : α → κ) (rows : List α) (k : κ) (row : α) : Prop :=
  ∃ before after, rows = before ++ row :: after ∧ key row = k ∧ ∀ other ∈ after, key other ≠ k

theorem FirstWith.mem (h : FirstWith key rows k row) : row ∈ rows ∧ key row = k := by
  obtain ⟨before, after, rfl, hkey, -⟩ := h
  exact ⟨by simp, hkey⟩

theorem firstWith_reverse : FirstWith key rows.reverse k row ↔ LastWith key rows k row := by
  constructor
  · rintro ⟨before, after, heq, hkey, hbefore⟩
    refine ⟨after.reverse, before.reverse, ?_, hkey, fun other hother => ?_⟩
    · rw [← rows.reverse_reverse, heq]
      simp
    · exact hbefore other (List.mem_reverse.mp hother)
  · rintro ⟨before, after, rfl, hkey, hafter⟩
    refine ⟨after.reverse, before.reverse, by simp, hkey, fun other hother => ?_⟩
    exact hafter other (List.mem_reverse.mp hother)

/-- A lookup by a key answers with the last row that has the key, and with none where no row has
it. -/
structure AnswersLast (lookup : κ → Option α) (key : α → κ) (rows : List α) : Prop where
  some_iff : ∀ k row, lookup k = some row ↔ LastWith key rows k row
  none_iff : ∀ k, lookup k = none ↔ ∀ row ∈ rows, key row ≠ k

/-- Two lookups in the same rows, each by a key of its own, are inverse to each other: both find
every row, and one key leads to the other exactly where that one leads back. -/
structure InverseOn (rows : List α) (find : κ → Option α) (key : α → κ) (find' : ι → Option α)
    (key' : α → ι) :
    Prop where
  finds : ∀ row ∈ rows, find (key row) = some row ∧ find' (key' row) = some row
  leads_back : ∀ k k', (find k).map key' = some k' ↔ (find' k').map key = some k

variable [DecidableEq κ] [DecidableEq ι]

theorem find?_eq_some_iff_firstWith : rows.find? (key · = k) = some row ↔
    FirstWith key rows k row := by
  rw [List.find?_eq_some_iff_append]
  constructor
  · rintro ⟨hkey, before, after, heq, hbefore⟩
    exact ⟨before, after, heq, by simpa using hkey, by simpa using hbefore⟩
  · rintro ⟨before, after, heq, hkey, hbefore⟩
    exact ⟨by simpa using hkey, before, after, heq, by simpa using hbefore⟩

theorem findEntry_map (key : α → κ) (rows : List α) (k : κ) :
    findEntry k (rows.map fun row => (key row, row)) = rows.find? (key · = k) := by
  induction rows with
  | nil => rfl
  | cons row rows ih =>
      rw [List.map_cons, findEntry, List.find?_cons, ih]
      by_cases hkey : key row = k
      · simp [hkey]
      · simp [hkey]

namespace Dictionary

theorem get?_ofList_map (key : α → κ) (rows : List α) (k : κ) :
    (ofList (rows.map fun row => (key row, row))).get? k = rows.reverse.find? (key · = k) := by
  rw [get?_ofList, ← List.map_reverse, findEntry_map]

theorem answersLast_ofList (key : α → κ) (rows : List α) :
    AnswersLast (ofList (rows.map fun row => (key row, row))).get? key rows where
  some_iff k row := by rw [get?_ofList_map, find?_eq_some_iff_firstWith, firstWith_reverse]
  none_iff k := by simp [get?_ofList_map, List.find?_eq_none]

/-- Tables of the same rows under two keys that tell the rows apart are inverse to each other. -/
theorem inverseOn_ofList (hkey : (rows.map key).Nodup) (hkey' : (rows.map key').Nodup) :
    InverseOn rows (ofList (rows.map fun row => (key row, row))).get? key
      (ofList (rows.map fun row => (key' row, row))).get? key' where
  finds row hrow :=
    ⟨(get?_ofList_map_eq_some_iff hkey).mpr ⟨hrow, rfl⟩,
      (get?_ofList_map_eq_some_iff hkey').mpr ⟨hrow, rfl⟩⟩
  leads_back k k' := by
    rw [Option.map_eq_some_iff, Option.map_eq_some_iff]
    refine exists_congr fun row => ?_
    rw [get?_ofList_map_eq_some_iff hkey, get?_ofList_map_eq_some_iff hkey']
    exact and_right_comm

end Dictionary

end Rows

/-! ### Names of enumeration values

Here the first row of a value answers and not the last: an entry is made only where there is none.
-/

namespace Schema

theorem enumerationName?_eq (s : Schema) (value : UInt8) :
    s.index.enumerationName? value =
      (s.enumerations.find? (·.value = value)).map EnumerationEntry.name := by
  rw [SymbolTables.enumerationName?, index, Dictionary.get?_foldl_putNew, Dictionary.get?_empty,
    Option.none_or]

theorem enumerationName?_eq_some_iff {s : Schema} {value : UInt8} {name : String} :
    s.index.enumerationName? value = some name ↔
      ∃ e, FirstWith EnumerationEntry.value s.enumerations value e ∧ e.name = name := by
  simp only [enumerationName?_eq, Option.map_eq_some_iff, find?_eq_some_iff_firstWith]

theorem enumerationName?_eq_none_iff {s : Schema} {value : UInt8} :
    s.index.enumerationName? value = none ↔ ∀ e ∈ s.enumerations, e.value ≠ value := by
  simp [enumerationName?_eq, List.find?_eq_none]

/-- The name that is shown for a value is a name of that value, also where other rows have the value
too. -/
theorem enumeration?_enumerationName? {s : Schema}
    (hnames : (s.enumerations.map EnumerationEntry.name).Nodup) {e : EnumerationEntry}
    (he : e ∈ s.enumerations) :
    ((s.index.enumerationName? e.value).bind s.index.enumeration?).map EnumerationEntry.value =
      some e.value := by
  cases hname : s.index.enumerationName? e.value with
  | none => exact absurd rfl (enumerationName?_eq_none_iff.mp hname e he)
  | some name =>
      obtain ⟨first, hfirst, rfl⟩ := enumerationName?_eq_some_iff.mp hname
      have hfound : s.index.enumeration? first.name = some first :=
        (Dictionary.get?_ofList_map_eq_some_iff hnames).mpr ⟨hfirst.mem.1, rfl⟩
      rw [Option.bind_some, hfound, Option.map_some, hfirst.mem.2]

/-! ### All six lookups -/

/-- **The tables of a schema are coherent, whatever its rows.**  A lookup by name, by tag or by id
answers with the last row that has the key, and the name of an enumeration value is that of the
first row with the value; where no row has the key there is no answer.  So names and tags, and names
and ids, are inverse to each other where neither is shared by two rows, and if no enumeration name
is shared, the name of a value leads back to the value. -/
theorem index_coherent (s : Schema) :
    (AnswersLast s.index.widget? WidgetEntry.name s.widgets ∧
      AnswersLast s.index.property? PropertyEntry.name s.properties ∧
      AnswersLast s.index.enumeration? EnumerationEntry.name s.enumerations ∧
      AnswersLast s.index.widgetByTag? WidgetEntry.tag s.widgets ∧
      AnswersLast s.index.propertyById? PropertyEntry.id s.properties) ∧
    (∀ value name, s.index.enumerationName? value = some name ↔
      ∃ e, FirstWith EnumerationEntry.value s.enumerations value e ∧ e.name = name) ∧
    (∀ value, s.index.enumerationName? value = none ↔ ∀ e ∈ s.enumerations, e.value ≠ value) ∧
    ((s.widgets.map WidgetEntry.name).Nodup → (s.widgets.map WidgetEntry.tag).Nodup →
      InverseOn s.widgets s.index.widget? WidgetEntry.name s.index.widgetByTag? WidgetEntry.tag) ∧
    ((s.properties.map PropertyEntry.name).Nodup → (s.properties.map PropertyEntry.id).Nodup →
      InverseOn s.properties s.index.property? PropertyEntry.name s.index.propertyById?
        PropertyEntry.id) ∧
    ((s.enumerations.map EnumerationEntry.name).Nodup → ∀ e ∈ s.enumerations,
      ((s.index.enumerationName? e.value).bind s.index.enumeration?).map EnumerationEntry.value =
        some e.value) := by
  refine ⟨⟨?_, ?_, ?_, ?_, ?_⟩, ?_, ?_, ?_, ?_, ?_⟩
  · exact Dictionary.answersLast_ofList WidgetEntry.name s.widgets
  · exact Dictionary.answersLast_ofList PropertyEntry.name s.properties
  · exact Dictionary.answersLast_ofList EnumerationEntry.name s.enumerations
  · exact Dictionary.answersLast_ofList WidgetEntry.tag s.widgets
  · exact Dictionary.answersLast_ofList PropertyEntry.id s.properties
  · exact fun value name => enumerationName?_eq_some_iff
  · exact fun value => enumerationName?_eq_none_iff
  · exact fun hnames htags => Dictionary.inverseOn_ofList hnames htags
  · exact fun hnames hids => Dictionary.inverseOn_ofList hnames hids
  · exact fun hnames e he => enumeration?_enumerationName? hnames he

/-- Two names of one value: the first is shown for it, the second is still found, and the value
leads back to itself. -/
theorem index_coherent_shared_value :
    let s : Schema :=
      ⟨[⟨"Panel", 17⟩, ⟨"Label", 2⟩], [⟨"margin", 3, .margins⟩, ⟨"text", 10, .string⟩],
      [⟨"left", 1⟩, ⟨"top", 4⟩, ⟨"start", 1⟩]⟩
    ((s.widgets.map WidgetEntry.name).Nodup ∧ (s.widgets.map WidgetEntry.tag).Nodup ∧
      InverseOn s.widgets s.index.widget? WidgetEntry.name s.index.widgetByTag? WidgetEntry.tag) ∧
    ((s.properties.map PropertyEntry.name).Nodup ∧ (s.properties.map PropertyEntry.id).Nodup ∧
      InverseOn s.properties s.index.property? PropertyEntry.name s.index.propertyById?
      PropertyEntry.id) ∧
    (s.enumerations.map EnumerationEntry.name).Nodup ∧ s.index.enumerationName? 1 = some "left" ∧
      LastWith EnumerationEntry.name s.enumerations "start" ⟨"start", 1⟩ ∧
      ((s.index.enumerationName? 1).bind s.index.enumeration?).map EnumerationEntry.value =
        some 1 := by
  intro s
  obtain ⟨⟨-, -, hnamed, -⟩, -, -, hwidgets, hproperties, henumerations⟩ := index_coherent s
  have hstart : s.index.enumeration? "start" = some ⟨"start", 1⟩ := by decide
  refine ⟨⟨by decide, by decide, hwidgets (by decide) (by decide)⟩,
    ⟨by decide, by decide, hproperties (by decide) (by decide)⟩, by decide, by decide, ?_, ?_⟩
  · exact (hnamed.some_iff "start" ⟨"start", 1⟩).mp hstart
  · exact henumerations (by decide) ⟨"start", 1⟩ (by decide)

-- A shared name and a shared tag: the first row is found by neither, so the lookups are not inverse
-- on the rows.
example :
    let t := Schema.index ⟨[⟨"Panel", 17⟩, ⟨"Box", 17⟩, ⟨"Panel", 18⟩], [], []⟩
    t.widget? "Panel" = some ⟨"Panel", 18⟩ ∧ t.widgetByTag? 17 = some ⟨"Box", 17⟩ := by decide

end Schema

end WidgetLayout
