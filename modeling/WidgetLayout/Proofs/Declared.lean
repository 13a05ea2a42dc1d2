/-
Trees that a schema declares, and the bytes that stand for them.

A tree is declared by a schema if its names, tags, ids and types are together in the schema's rows.
The decoder does not see rows but looks tags and ids up in tables, where the last of several rows
answers.  In a schema that can be read back no two rows share a tag or an id, so a lookup is a
question about the rows (`known_iff_declared`), and what was said of known trees holds of declared
ones: writing and reading are inverse to each other up to the freedoms of `Form`.
-/
import Mathlib.Data.List.Nodup
import WidgetLayout.Proofs.Decoding

namespace WidgetLayout

/-! ### Lookups

A table is filled row by row, so what a lookup finds can be told from the rows alone. -/

section Entries

variable {κ α : Type} [DecidableEq κ]

theorem findEntry_append (k : κ) (l l' : List (κ × α)) :
    findEntry k (l ++ l') = (findEntry k l).or (findEntry k l') := by
  induction l with
  | nil => rfl
  | cons e l ih =>
      rw [List.cons_append, findEntry, findEntry]
      by_cases he : e.1 = k
      · rw [if_pos he, if_pos he]
        rfl
      · rw [if_neg he, if_neg he, ih]

theorem mem_of_findEntry {k : κ} {a : α} {l : List (κ × α)} (h : findEntry k l = some a) :
    (k, a) ∈ l := by
  induction l with
  | nil => cases h
  | cons e l ih =>
      rw [findEntry] at h
      by_cases he : e.1 = k
      · rw [if_pos he] at h
        obtain rfl := Option.some.inj h
        rw [← he]
        exact List.mem_cons_self
      · rw [if_neg he] at h
        exact List.mem_cons_of_mem _ (ih h)

theorem findEntry_of_mem {k : κ} {a : α} {l : List (κ × α)} (hnodup : (l.map Prod.fst).Nodup)
    (h : (k, a) ∈ l) : findEntry k l = some a := by
  induction l with
  | nil => cases h
  | cons e l ih =>
      rw [List.map_cons, List.nodup_cons] at hnodup
      rw [findEntry]
      rcases List.mem_cons.mp h with rfl | hl
      · rw [if_pos rfl]
      · have he : e.1 ≠ k := fun heq => hnodup.1 (heq ▸ List.mem_map_of_mem hl)
        rw [if_neg he]
        exact ih hnodup.2 hl

namespace Dictionary

/-- Of several pairs with one key the last decides, and before them all what was there already. -/
theorem get?_putAll (l : List (κ × α)) (d : Dictionary κ α) (k : κ) :
    (d.putAll l).get? k = (findEntry k l.reverse).or (d.get? k) := by
  induction l generalizing d with
  | nil => rfl
  | cons e l ih =>
      show ((d.put e.1 e.2).putAll l).get? k = _
      rw [ih, get?_put, List.reverse_cons, findEntry_append]
      by_cases he : e.1 = k
      · simp [he, findEntry]
      · simp [he, findEntry]

theorem get?_ofList (l : List (κ × α)) (k : κ) : (ofList l).get? k = findEntry k l.reverse := by
  rw [ofList, get?_putAll, get?_empty, Option.or_none]

/-- A lookup in rows by a key of theirs finds one of the rows. -/
theorem mem_of_get?_ofList_map {key : α → κ} {rows : List α} {k : κ} {a : α}
    (h : (ofList (rows.map fun e => (key e, e))).get? k = some a) : a ∈ rows ∧ key a = k := by
  rw [get?_ofList] at h
  obtain ⟨e, he, heq⟩ := List.mem_map.mp (List.mem_reverse.mp (mem_of_findEntry h))
  obtain ⟨rfl, rfl⟩ := Prod.mk.inj heq
  exact ⟨he, rfl⟩

/-- Where no two rows share a key, a lookup finds every row by its key. -/
theorem get?_ofList_map_eq_some_iff {key : α → κ} {rows : List α} (hnodup : (rows.map key).Nodup)
    {k : κ} {a : α} :
    (ofList (rows.map fun e => (key e, e))).get? k = some a ↔ a ∈ rows ∧ key a = k := by
  refine ⟨mem_of_get?_ofList_map, ?_⟩
  rintro ⟨ha, rfl⟩
  rw [get?_ofList]
  refine findEntry_of_mem ?_ (List.mem_reverse.mpr (List.mem_map.mpr ⟨a, ha, rfl⟩))
  rw [List.map_reverse, List.map_map]
  exact List.nodup_reverse.mpr hnodup

/-- Of several rows with one key the first answers, and before them all what was there already. -/
theorem get?_foldl_putNew (key : α → κ) (rows : List α) (d : Dictionary κ α) (k : κ) :
    (rows.foldl (fun d e => d.putNew (key e) e) d).get? k =
      (d.get? k).or (rows.find? (key · = k)) := by
  induction rows generalizing d with
  | nil => simp
  | cons row rows ih =>
      rw [List.foldl_cons, ih, get?_putNew, List.find?_cons]
      by_cases hkey : key row = k
      · subst hkey
        cases d.get? (key row) <;> simp
      · simp [hkey]

end Dictionary

end Entries

/-! ### Schemas that can be read back

Tags and ids share their bytes with the zero that ends a section and with the bit that marks a
binding, and a tag that two rows share stands for one of them only.  These rules leave such
schemas out. -/

/-- The rules for a schema whose documents are to be read back from their bytes. -/
@[mk_iff]
structure Schema.Readable (s : Schema) : Prop where
  tags_nodup : (s.widgets.map WidgetEntry.tag).Nodup
  ids_nodup : (s.properties.map PropertyEntry.id).Nodup
  /-- Zero ends a section. -/
  tag_ne : ∀ e ∈ s.widgets, e.tag ≠ terminator
  id_ne : ∀ e ∈ s.properties, e.id ≠ terminator
  /-- The high bit marks a binding. -/
  id_lt : ∀ e ∈ s.properties, e.id.toNat < 128

instance (s : Schema) : Decidable s.Readable := decidable_of_iff _ s.readable_iff.symm

theorem Schema.readable_shipped : Schema.shipped.Readable := by decide

section Lookup

variable {s : Schema}

theorem widgetByTag?_eq_some_iff (hs : s.Readable) {t : UInt8} {e : WidgetEntry} :
    s.index.widgetByTag? t = some e ↔ e ∈ s.widgets ∧ e.tag = t :=
  Dictionary.get?_ofList_map_eq_some_iff hs.tags_nodup

theorem propertyById?_eq_some_iff (hs : s.Readable) {id : UInt8} {e : PropertyEntry} :
    s.index.propertyById? id = some e ↔ e ∈ s.properties ∧ e.id = id :=
  Dictionary.get?_ofList_map_eq_some_iff hs.ids_nodup

end Lookup

/-! ### Declared trees -/

/-- A property is a row of the schema, and a literal value suits the type of that row. -/
def Property.Declared (s : Schema) (p : Property) : Prop :=
  ∃ type, ⟨p.name, p.id, type⟩ ∈ s.properties ∧ ∀ v, p.value = .literal v → v.Suits type

mutual

/-- Every widget of a tree is a row of the schema, and its properties are declared. -/
def Widget.Declared (s : Schema) : Widget → Prop
  | ⟨name, tag, properties, children⟩ =>
    ⟨name, tag⟩ ∈ s.widgets ∧ (∀ p ∈ properties, p.Declared s) ∧ Widget.DeclaredAll s children

/-- Every one of several trees is declared. -/
def Widget.DeclaredAll (s : Schema) : List Widget → Prop
  | [] => True
  | w :: ws => Widget.Declared s w ∧ Widget.DeclaredAll s ws

end

section Declared

variable {s : Schema}

theorem Property.known_iff_declared (hs : s.Readable) (p : Property) :
    p.Known s.index ↔ p.Declared s := by
  constructor
  · intro h
    obtain ⟨hlt, entry, hentry, hname, hvalue⟩ := h
    obtain ⟨hmem, hid⟩ := (propertyById?_eq_some_iff hs).mp hentry
    refine ⟨entry.type, ?_, fun v hv => (hvalue v hv).2⟩
    rw [← hname, ← hid]
    exact hmem
  · intro h
    obtain ⟨type, hmem, hvalue⟩ := h
    refine ⟨hs.id_lt _ hmem, _, (propertyById?_eq_some_iff hs).mpr ⟨hmem, rfl⟩, rfl, fun v hv => ?_⟩
    exact ⟨hs.id_ne _ hmem, hvalue v hv⟩

mutual

/-- In a schema that can be read back, the tables know the trees that the rows declare. -/
theorem Widget.known_iff_declared (hs : s.Readable) :
    (w : Widget) → (w.Known s.index ↔ w.Declared s)
  | ⟨name, tag, properties, children⟩ => by
      rw [Widget.Known, Widget.Declared, Widget.knownAll_iff_declaredAll hs children]
      have hproperties : (∀ p ∈ properties, p.Known s.index) ↔ ∀ p ∈ properties, p.Declared s :=
        forall₂_congr fun p _ => Property.known_iff_declared hs p
      rw [hproperties]
      refine and_congr_left fun _ => ?_
      constructor
      · intro h
        obtain ⟨entry, hentry, hname⟩ := h
        obtain ⟨hmem, htag⟩ := (widgetByTag?_eq_some_iff hs).mp hentry
        rw [← hname, ← htag]
        exact hmem
      · intro h
        exact ⟨_, (widgetByTag?_eq_some_iff hs).mpr ⟨h, rfl⟩, rfl⟩

theorem Widget.knownAll_iff_declaredAll (hs : s.Readable) :
    (ws : List Widget) → (Widget.KnownAll s.index ws ↔ Widget.DeclaredAll s ws)
  | [] => by rw [Widget.KnownAll, Widget.DeclaredAll]
  | w :: ws => by
      rw [Widget.KnownAll, Widget.DeclaredAll, Widget.knownAll_iff_declaredAll hs ws,
        Widget.known_iff_declared hs w]
      refine and_congr_left fun _ => ⟨fun h => h.2, fun h => ⟨?_, h⟩⟩
      obtain ⟨name, tag, properties, children⟩ := w
      rw [Widget.Declared] at h
      exact hs.tag_ne _ h.1

end

end Declared

/-! ### Writing and reading -/

/-- **Reading undoes writing**: the canonical bytes of a declared tree decode to that tree. -/
theorem decode_encode_eq_ok {s : Schema} (hs : s.Readable) {w : Widget} (hw : w.Declared s)
    (hheight : w.height ≤ maxDecodeDepth) : Decode.decode s.index w.encode = .ok w := by
  have hknown := (Widget.known_iff_declared hs w).mpr hw
  exact Decode.decode_eq_ok_iff.mpr ⟨hknown, hheight, Widget.form_encode w hknown⟩

/-- A grid with a size list, a bound text and a labelled child. -/
def Widget.grid : Widget :=
  ⟨"GridLayout", 22,
    [⟨"rows", 16,
      .literal (.sizeList [.auto, .pixels 300, .percentage ⟨0x3e800000⟩, .expand, .auto])⟩,
      ⟨"toolTip", 27, .binding 0xffffffff⟩],
    [⟨"Label", 2, [⟨"text", 10, .literal (.string "é")⟩], []⟩]⟩

theorem Widget.declared_grid : Widget.grid.Declared .shipped := by
  simp [Widget.grid, Widget.Declared, Widget.DeclaredAll, Property.Declared, Schema.shipped,
    Value.suits_iff, Value.type, Value.Fits, Text.Utf8.encode, Char.utf8Size]

theorem decode_encode_grid :
    Schema.shipped.Readable ∧ Widget.grid.Declared .shipped ∧ Widget.grid.height ≤ maxDecodeDepth ∧
      Decode.decode SymbolTables.shipped Widget.grid.encode = .ok Widget.grid := by
  have hheight : Widget.grid.height ≤ maxDecodeDepth := by decide
  exact ⟨Schema.readable_shipped, Widget.declared_grid, hheight,
    decode_encode_eq_ok Schema.readable_shipped Widget.declared_grid hheight⟩

/-- **Nothing but forms of declared trees is read**: bytes decode to a tree exactly if the tree is
declared, is not too deep, and differs from its canonical bytes only by empty groups in front of
varints and by bits of tag bytes that name no item.  The canonical bytes are then the shortest. -/
theorem decode_eq_ok_iff_declared_form {s : Schema} (hs : s.Readable) (bytes : List UInt8)
    (w : Widget) :
    Decode.decode s.index bytes = .ok w ↔
      w.height ≤ maxDecodeDepth ∧ w.Declared s ∧ w.Form bytes ∧ w.encode.length ≤ bytes.length := by
  rw [Decode.decode_eq_ok_iff, Widget.known_iff_declared hs]
  constructor
  · intro h
    obtain ⟨hw, hheight, hform⟩ := h
    exact ⟨hheight, hw, hform, Widget.Form.length_le w hform⟩
  · intro h
    obtain ⟨hheight, hw, hform, -⟩ := h
    exact ⟨hw, hheight, hform⟩

/-- A count with an empty group in front and a tag byte with six bits that name no item are both
read. -/
theorem decode_padded_grid :
    Schema.shipped.Readable ∧
      Decode.decode SymbolTables.shipped [22, 16, 0x80, 1, 0xfc, 0, 0] =
        .ok ⟨"GridLayout", 22, [⟨"rows", 16, .literal (.sizeList [.auto])⟩], []⟩ := by
  have hdeclared : Widget.Declared .shipped
      ⟨"GridLayout", 22, [⟨"rows", 16, .literal (.sizeList [.auto])⟩], []⟩ := by
    simp [Widget.Declared, Widget.DeclaredAll, Property.Declared, Schema.shipped, Value.suits_iff,
      Value.type, Value.Fits]
  have hcount : Wire.Padded 1 [0x80, 1] := ⟨1, by simp [Wire.varint, Wire.leadingGroups], by decide⟩
  have htags : SizeItem.TagForm [.auto] [0xfc] := ⟨[], 0, 0xfc, by decide, rfl, by decide⟩
  have hrows : Property.Form ⟨"rows", 16, .literal (.sizeList [.auto])⟩ [16, 0x80, 1, 0xfc] :=
    ⟨_, ⟨[0x80, 1], [0xfc], [], hcount, htags, ⟨[], [], rfl, rfl, rfl⟩, rfl⟩, rfl⟩
  have hform : Widget.Form ⟨"GridLayout", 22, [⟨"rows", 16, .literal (.sizeList [.auto])⟩], []⟩
      [22, 16, 0x80, 1, 0xfc, 0, 0] := by
    rw [Widget.Form]
    exact ⟨[16, 0x80, 1, 0xfc], [], ⟨_, [], hrows, rfl, rfl⟩, by rw [Widget.FormAll], rfl⟩
  exact ⟨Schema.readable_shipped, (decode_eq_ok_iff_declared_form Schema.readable_shipped _ _).mpr
    ⟨by decide, hdeclared, hform, Widget.Form.length_le _ hform⟩⟩

end WidgetLayout
