/-
The listing of a tree shows its outline, whatever the texts in it say.

The outline of a tree is what its names are and how they are nested.  A listing shows more than
that, and texts in it come from anywhere; but a quoted text has no end of a line in it, and neither
has any other value, so every widget has two lines and every property one.  How a line begins tells
what it is there for (`lineHead`): with a name and a blank, with a name and a colon, or with a
brace.  Values come behind the colon and cannot change that.  So a listing determines the marks of
its lines (`Shows`), and the marks determine the outline, because they open and close widgets as
parentheses do (`Outline.marks_append_inj`).
-/
import Mathlib.Data.List.Forall2
import WidgetLayout.Proofs.BoundedDecoding
import WidgetLayout.Proofs.Listing

namespace WidgetLayout

open WidgetLayout.Text (isDigit)

/-! ### Texts of one line

A text could upset the layout of a listing by the end of a line only.  Names have none, and inside
quotes it is spelled by an escape. -/

/-- There is no end of a line in a text. -/
def OneLine (text : String) : Prop := '\n' ∉ text.toList

instance (text : String) : Decidable (OneLine text) :=
  inferInstanceAs (Decidable ('\n' ∉ text.toList))

theorem oneLine_append {a b : String} : OneLine (a ++ b) ↔ OneLine a ∧ OneLine b := by
  simp [OneLine]

theorem oneLine_of_isName {name : String} (h : isName name.toList) : OneLine name := by
  intro hmem
  cases hchars : name.toList with
  | nil => simp [hchars] at hmem
  | cons c cs =>
      rw [hchars, isName, Bool.and_eq_true, List.all_eq_true] at h
      rw [hchars] at hmem
      rcases List.mem_cons.mp hmem with rfl | hcs
      · exact absurd h.1 (by decide)
      · exact absurd (h.2 _ hcs) (by decide)

/-- No digit of a number, to whatever base, is the end of a line. -/
theorem newline_not_mem_toDigits {b : Nat} (hb : 1 < b) (n : Nat) : '\n' ∉ Nat.toDigits b n := by
  induction n using Nat.strongRecOn with
  | ind n ih =>
      rw [Nat.toDigits_eq_if hb]
      split
      · simp
      · rename_i hge
        simpa using ih (n / b) (Nat.div_lt_self (by omega) hb)

theorem oneLine_repr (n : Nat) : OneLine (Nat.repr n) := by
  rw [OneLine, Nat.toList_repr]
  exact newline_not_mem_toDigits (by decide) n

/-- Inside quotes the end of a line is spelled by its letter. -/
theorem newline_not_mem_spell (c : Char) : '\n' ∉ Text.spell c := by
  unfold Text.spell
  split
  case h_7 hnewline _ _ =>
    split
    · simpa [Text.hex] using newline_not_mem_toDigits (by decide) c.toNat
    · simpa using Ne.symm hnewline
  all_goals decide

theorem oneLine_quoted (text : String) : OneLine (quoted text) := by
  simp [OneLine, quoted, Text.quote, newline_not_mem_spell]

theorem oneLine_commaSeparated {texts : List String} (h : ∀ text ∈ texts, OneLine text) :
    OneLine (commaSeparated texts) := by
  induction texts with
  | nil => simp [OneLine, commaSeparated]
  | cons text texts ih =>
      obtain ⟨htext, htexts⟩ := List.forall_mem_cons.mp h
      cases texts with
      | nil => simpa [OneLine, commaSeparated] using htext
      | cons next texts =>
          have hrest := ih htexts
          simp only [OneLine, commaSeparated] at htext hrest
          simpa [OneLine, commaSeparated] using ⟨htext, by simpa using hrest⟩

/-! ### Values -/

theorem mem_toDigits_of_mem_significantDigits {c : Char} {n : Nat}
    (h : c ∈ Single.significantDigits n) : c ∈ Nat.toDigits 10 n :=
  List.mem_reverse.mp ((List.dropWhile_sublist _).subset (List.mem_reverse.mp h))

/-- A decimal point adds nothing but itself and zeros to the digits. -/
theorem mem_point {style : Single.Style} {ds : List Char} {n : Int} {c : Char}
    (h : c ∈ style.point ds n) : c ∈ ds ∨ c = '0' ∨ c = '.' := by
  have hwhole : c ∈ ds.take n.toNat ++ List.replicate (n.toNat - ds.length) '0' →
      c ∈ ds ∨ c = '0' := by
    intro hc
    rcases List.mem_append.mp hc with hc | hc
    · exact .inl (List.mem_of_mem_take hc)
    · exact .inr (List.eq_of_mem_replicate hc)
  unfold Single.Style.point at h
  split at h
  · grind
  · dsimp only at h
    split at h
    · split at h <;> grind
    · rename_i rest _
      have hrest : c ∈ ds.drop n.toNat → c ∈ ds := List.mem_of_mem_drop
      grind

theorem oneLine_write (x : Single) : OneLine (Single.Style.listing.write x) := by
  unfold Single.Style.write
  split
  · decide
  · split <;> decide
  · rename_i negative m q _
    have hsign : '\n' ∉ (if negative then ['-'] else []) := by cases negative <;> decide
    dsimp only
    split
    · simp [OneLine, Single.Style.listing]
    · rw [OneLine, String.toList_ofList, List.mem_append, not_or]
      refine ⟨hsign, fun hmem => ?_⟩
      rcases mem_point hmem with hdigit | hzero | hpoint
      · exact newline_not_mem_toDigits (by decide) _ (mem_toDigits_of_mem_significantDigits hdigit)
      · exact absurd hzero (by decide)
      · exact absurd hpoint (by decide)

theorem SizeItem.oneLine_listing (item : SizeItem) : OneLine item.listing := by
  cases item with
  | auto => decide
  | expand => decide
  | pixels count => exact oneLine_repr count.toNat
  | percentage fraction => exact oneLine_append.mpr ⟨oneLine_write _, by decide⟩

/-- An enumeration value is shown by a name of the schema or by its number. -/
theorem oneLine_enumeration {s : Schema} (hs : s.Spellable) (value : UInt8) :
    OneLine ((s.index.enumerationName? value).getD s!"#{value}") := by
  cases hname : s.index.enumerationName? value with
  | none => exact oneLine_append.mpr ⟨by decide, oneLine_repr value.toNat⟩
  | some name =>
      obtain ⟨e, he, rfl⟩ := Option.map_eq_some_iff.mp hname
      have hrow : s.enumerations.find? (·.value = value) = some e := by
        rw [← he]
        exact (Dictionary.get?_foldl_putNew EnumerationEntry.value s.enumerations .empty value).symm
      exact oneLine_of_isName (hs.enumeration_name e (List.mem_of_find?_eq_some hrow)).1

theorem Value.oneLine_listing {s : Schema} (hs : s.Spellable) (v : Value) :
    OneLine (v.listing s.index) := by
  cases v with
  | integer n => exact oneLine_repr n.toNat
  | number x => exact oneLine_write x
  | enumeration value => exact oneLine_enumeration hs value
  | string text => exact oneLine_quoted text
  | boolean b =>
      have hwords : OneLine "true" ∧ OneLine "false" := by decide
      cases b with
      | true => exact hwords.1
      | false => exact hwords.2
  | margins m =>
      refine oneLine_commaSeparated fun text htext => ?_
      obtain ⟨n, -, rfl⟩ := List.mem_map.mp htext
      exact oneLine_repr n.toNat
  | sizeList items =>
      refine oneLine_commaSeparated fun text htext => ?_
      obtain ⟨item, -, rfl⟩ := List.mem_map.mp htext
      exact item.oneLine_listing
  | resource id =>
      exact oneLine_append.mpr ⟨oneLine_append.mpr ⟨by decide, oneLine_repr id.toNat⟩, by decide⟩

theorem PropertyValue.oneLine_listing {s : Schema} (hs : s.Spellable) (v : PropertyValue) :
    OneLine (v.listing s.index) := by
  cases v with
  | literal value => exact value.oneLine_listing hs
  | binding id =>
      exact oneLine_append.mpr ⟨oneLine_append.mpr ⟨by decide, oneLine_repr id.toNat⟩, by decide⟩

/-! ### Outlines

How a tree is nested is written as a list of marks, one for each line, from which it can be read
back. -/

/-- What the names of a tree are: those of its widgets as they are nested, and those of their
properties. -/
structure Outline where
  name : String
  properties : List String
  children : List Outline

mutual

/-- The outline of a tree. -/
def Widget.outline : Widget → Outline
  | ⟨name, _, properties, children⟩ =>
      ⟨name, properties.map Property.name, Widget.outlineAll children⟩

/-- The outlines of several trees. -/
def Widget.outlineAll : List Widget → List Outline
  | [] => []
  | w :: ws => w.outline :: Widget.outlineAll ws

end

/-- What a line of a listing is there for. -/
inductive Mark
  | opens (name : String)
  | property (name : String)
  | closes
deriving DecidableEq, Repr

mutual

/-- What the lines of a tree are there for. -/
def Outline.marks : Outline → List Mark
  | ⟨name, properties, children⟩ =>
    .opens name :: properties.map .property ++ Outline.marksAll children ++ [.closes]

/-- The same for all trees of a list. -/
def Outline.marksAll : List Outline → List Mark
  | [] => []
  | o :: os => o.marks ++ Outline.marksAll os

end

/-- Properties end where no other one follows. -/
theorem properties_append_inj {ps ps' : List String} {rest rest' : List Mark}
    (hrest : ∀ p, rest.head? ≠ some (.property p)) (hrest' : ∀ p, rest'.head? ≠ some (.property p))
    (h : ps.map Mark.property ++ rest = ps'.map Mark.property ++ rest') :
    ps = ps' ∧ rest = rest' := by
  induction ps generalizing ps' with
  | nil =>
      cases ps' with
      | nil => exact ⟨rfl, h⟩
      | cons p ps' => exact absurd (congrArg List.head? h) (hrest p)
  | cons p ps ih =>
      cases ps' with
      | nil => exact absurd (congrArg List.head? h).symm (hrest' p)
      | cons p' ps' =>
          obtain ⟨hp, htail⟩ := List.cons.inj h
          obtain ⟨rfl, rfl⟩ := ih htail
          exact ⟨by rw [Mark.property.inj hp], rfl⟩

namespace Outline

/-- Behind the properties of a widget comes a child of it or its end. -/
theorem head?_marksAll_ne (os : List Outline) (rest : List Mark) (p : String) :
    (marksAll os ++ .closes :: rest).head? ≠ some (.property p) := by
  cases os with
  | nil => simp [marksAll]
  | cons o os =>
      obtain ⟨name, properties, children⟩ := o
      simp [marksAll, marks]

mutual

/-- **The marks of a tree determine its outline**, and where they end among others. -/
theorem marks_append_inj : (o o' : Outline) → ∀ {rest rest' : List Mark},
    o.marks ++ rest = o'.marks ++ rest' → o = o' ∧ rest = rest'
  | ⟨name, properties, children⟩, ⟨name', properties', children'⟩, rest, rest', h => by
      simp only [marks, List.append_assoc, List.cons_append, List.nil_append, List.cons.injEq,
        Mark.opens.injEq] at h
      obtain ⟨rfl, hinside⟩ := h
      obtain ⟨rfl, hbelow⟩ := properties_append_inj (head?_marksAll_ne children rest)
        (head?_marksAll_ne children' rest') hinside
      obtain ⟨rfl, rfl⟩ := marksAll_append_inj children children' hbelow
      exact ⟨rfl, rfl⟩

theorem marksAll_append_inj : (os os' : List Outline) → ∀ {rest rest' : List Mark},
    marksAll os ++ .closes :: rest = marksAll os' ++ .closes :: rest' → os = os' ∧ rest = rest'
  | [], [], rest, rest', h => ⟨rfl, (List.cons.inj h).2⟩
  | [], ⟨name, properties, children⟩ :: os', rest, rest', h => by simp [marksAll, marks] at h
  | ⟨name, properties, children⟩ :: os, [], rest, rest', h => by simp [marksAll, marks] at h
  | o :: os, o' :: os', rest, rest', h => by
      simp only [marksAll, List.append_assoc] at h
      obtain ⟨rfl, htail⟩ := marks_append_inj o o' h
      obtain ⟨rfl, rfl⟩ := marksAll_append_inj os os' htail
      exact ⟨rfl, rfl⟩

end

end Outline

mutual

/-- Every widget has two marks and every property one. -/
theorem Widget.length_marks : (w : Widget) → w.outline.marks.length = 2 * w.count + w.propertyCount
  | ⟨name, tag, properties, children⟩ => by
      have hproperties : (properties.map fun _ => 1).sum = properties.length := by simp
      have hchildren := Widget.length_marksAll children
      simp only [outline, Outline.marks, count, propertyCount, total, List.length_append,
        List.length_cons, List.length_map, List.length_nil, hproperties]
      omega

theorem Widget.length_marksAll : (ws : List Widget) →
    (Outline.marksAll (Widget.outlineAll ws)).length =
      2 * Widget.countAll ws + Widget.totalAll (fun _ => 1) ws
  | [] => by simp only [outlineAll, Outline.marksAll, countAll, totalAll, List.length_nil]
  | w :: ws => by
      have hw := Widget.length_marks w
      have hws := Widget.length_marksAll ws
      simp only [outlineAll, Outline.marksAll, countAll, totalAll, List.length_append,
        propertyCount] at hw hws ⊢
      omega

end

/-! ### Lines

What a line is there for can be told from its first word and the character behind it. -/

/-- How a line begins behind its margin: with a word, and with what character after it. -/
def lineHead (line : String) : List Char × Option Char :=
  let cs := line.toList.dropWhile (· = ' ')
  (cs.takeWhile isWordPart, (cs.dropWhile isWordPart).head?)

/-- How the lines for a purpose begin. -/
def Mark.head : Mark → List Char × Option Char
  | .opens name => (name.toList, some ' ')
  | .property name => (name.toList, some ':')
  | .closes => ([], some '\x7d')

theorem Mark.head_injective {m m' : Mark} (h : m.head = m'.head) : m = m' := by
  cases m <;> cases m' <;> simp_all [Mark.head, String.toList_inj]

/-- The line is there for the mark, and it is one line. -/
structure Shows (line : String) (mark : Mark) : Prop where
  head : lineHead line = mark.head
  oneLine : OneLine line

theorem oneLine_of_forall₂ {lines : List String} {marks : List Mark}
    (h : List.Forall₂ Shows lines marks) : ∀ line ∈ lines, OneLine line := by
  induction h with
  | nil => simp
  | cons hline _ ih => exact List.forall_mem_cons.mpr ⟨hline.oneLine, ih⟩

theorem lineHead_eq {line : String} {level : Nat} {word rest : List Char} {c : Char}
    (hline : line.toList = (Widget.margin level).toList ++ (word ++ c :: rest))
    (hstart : ∀ d, (word ++ c :: rest).head? = some d → d ≠ ' ') (hword : ∀ d ∈ word, isWordPart d)
    (hc : ¬ isWordPart c) : lineHead line = (word, some c) := by
  have hmargin : ∀ d ∈ (Widget.margin level).toList, decide (d = ' ') := by
    intro d hd
    rw [Widget.margin, String.toList_ofList] at hd
    simp [List.eq_of_mem_replicate hd]
  have hstop : ∀ d, (c :: rest).head? = some d → ¬ isWordPart d := by
    rintro d ⟨⟩
    exact hc
  have hbody : ((Widget.margin level).toList ++ (word ++ c :: rest)).dropWhile (· = ' ') =
      word ++ c :: rest :=
    (takeWhile_append_stop hmargin fun d hd => by simpa using hstart d hd).2
  obtain ⟨htake, hdrop⟩ := takeWhile_append_stop hword hstop
  rw [lineHead, hline, hbody, htake, hdrop]
  rfl

/-- A line that begins with a name. -/
theorem lineHead_name {line name : String} (hname : isName name.toList) {level : Nat}
    {rest : List Char} {c : Char}
    (hline : line.toList = (Widget.margin level).toList ++ (name.toList ++ c :: rest))
    (hc : ¬ isWordPart c) : lineHead line = (name.toList, some c) := by
  cases hchars : name.toList with
  | nil =>
      rw [hchars] at hname
      cases hname
  | cons d ds =>
      rw [hchars, isName, Bool.and_eq_true, List.all_eq_true] at hname
      rw [hchars] at hline
      refine lineHead_eq hline ?_ ?_ hc
      · rintro _ ⟨⟩ rfl
        exact absurd hname.1 (by decide)
      · intro e he
        rcases List.mem_cons.mp he with rfl | he
        · have hstart := hname.1
          simp only [isWordStart, isWordPart, Char.isAlphanum, Bool.or_eq_true] at hstart ⊢
          exact hstart.imp_left .inl
        · exact hname.2 e he

theorem oneLine_margin (level : Nat) : OneLine (Widget.margin level) := by
  simp [OneLine, Widget.margin]

section Lines

variable {s : Schema}

theorem shows_opens {name : String} (hname : isName name.toList) (level : Nat) :
    Shows (Widget.margin level ++ name ++ " \x7b") (.opens name) where
  head := lineHead_name hname (by simp; rfl) (by decide)
  oneLine :=
    oneLine_append.mpr
      ⟨oneLine_append.mpr ⟨oneLine_margin level, oneLine_of_isName hname⟩, by decide⟩

theorem shows_property (hs : s.Spellable) {p : Property} (hp : p.Declared s) (level : Nat) :
    Shows (Widget.margin level ++ p.name ++ ": " ++ p.value.listing s.index ++ ";")
      (.property p.name) := by
  obtain ⟨type, hmem, -⟩ := hp
  have hname := hs.property_name _ hmem
  have hmarks : OneLine ": " ∧ OneLine ";" := by decide
  refine ⟨lineHead_name hname (by simp; rfl) (by decide), ?_⟩
  simp [oneLine_append, oneLine_margin, oneLine_of_isName hname, p.value.oneLine_listing hs, hmarks]

theorem shows_closes (level : Nat) : Shows (Widget.margin level ++ "\x7d") .closes := by
  have hline : (Widget.margin level ++ "\x7d").toList =
      (Widget.margin level).toList ++ ([] ++ '\x7d' :: []) :=
    String.toList_append
  refine ⟨lineHead_eq hline ?_ (by simp) (by decide),
    oneLine_append.mpr ⟨oneLine_margin level, by decide⟩⟩
  rintro _ ⟨⟩
  decide

mutual

/-- **The lines of a tree show the marks of its outline.** -/
theorem Widget.shows_lines (hs : s.Spellable) : (w : Widget) → w.Declared s → ∀ level,
    List.Forall₂ Shows (w.lines s.index level) w.outline.marks
  | ⟨name, tag, properties, children⟩, hdeclared, level => by
      rw [Widget.Declared] at hdeclared
      obtain ⟨hmem, hproperties, hchildren⟩ := hdeclared
      rw [Widget.lines, Widget.outline, Outline.marks]
      have hopens := shows_opens (hs.widget_name _ hmem) level
      have hinside :
          List.Forall₂ Shows (properties.map fun p => Widget.margin (level + 1) ++ p.name ++ ": " ++
          p.value.listing s.index ++ ";") ((properties.map Property.name).map .property) := by
        rw [List.map_map, List.forall₂_map_left_iff, List.forall₂_map_right_iff, List.forall₂_same]
        exact fun p hp => shows_property hs (hproperties p hp) (level + 1)
      have hbelow := Widget.shows_linesAll hs children hchildren (level + 1)
      exact List.rel_append (List.rel_append (.cons hopens hinside) hbelow)
        (.cons (shows_closes level) .nil)

theorem Widget.shows_linesAll (hs : s.Spellable) :
    (ws : List Widget) → Widget.DeclaredAll s ws → ∀ level,
    List.Forall₂ Shows (Widget.linesAll s.index level ws) (Outline.marksAll (Widget.outlineAll ws))
  | [], _, level => by
      rw [Widget.linesAll, Widget.outlineAll, Outline.marksAll]
      exact .nil
  | w :: ws, hdeclared, level => by
      rw [Widget.DeclaredAll] at hdeclared
      rw [Widget.linesAll, Widget.outlineAll, Outline.marksAll]
      exact List.rel_append (Widget.shows_lines hs w hdeclared.1 level)
        (Widget.shows_linesAll hs ws hdeclared.2 level)

end

end Lines

/-! ### Listings -/

theorem cut_at_newline {line : String} (h : OneLine line) (rest : List Char) :
    (line.toList ++ '\n' :: rest).takeWhile (· ≠ '\n') = line.toList ∧
      (line.toList ++ '\n' :: rest).dropWhile (· ≠ '\n') = '\n' :: rest := by
  refine takeWhile_append_stop ?_ ?_
  · intro c hc
    simpa using ne_of_mem_of_not_mem hc h
  · rintro _ ⟨⟩
    decide

/-- Lines can be told from their text. -/
theorem lines_eq_of_lineChars_eq {lines lines' : List String} (h : ∀ line ∈ lines, OneLine line)
    (h' : ∀ line ∈ lines', OneLine line) (heq : lineChars lines = lineChars lines') :
    lines = lines' := by
  induction lines generalizing lines' with
  | nil =>
      cases lines' with
      | nil => rfl
      | cons line' lines' => simp [lineChars] at heq
  | cons line lines ih =>
      cases lines' with
      | nil => simp [lineChars] at heq
      | cons line' lines' =>
          obtain ⟨hline, hlines⟩ := List.forall_mem_cons.mp h
          obtain ⟨hline', hlines'⟩ := List.forall_mem_cons.mp h'
          have heq : line.toList ++ '\n' :: lineChars lines =
              line'.toList ++ '\n' :: lineChars lines' := by
            simpa [lineChars] using heq
          obtain ⟨htake, hdrop⟩ := cut_at_newline hline (lineChars lines)
          obtain ⟨htake', hdrop'⟩ := cut_at_newline hline' (lineChars lines')
          rw [heq] at htake hdrop
          have htext : line = line' := String.toList_inj.mp (htake.symm.trans htake')
          have htail : lineChars lines = lineChars lines' :=
            (List.cons.inj (hdrop.symm.trans hdrop')).2
          rw [htext, ih hlines hlines' htail]

theorem outline_eq_of_listing_eq {s : Schema} (hs : s.Spellable) {w w' : Widget} (hw : w.Declared s)
    (hw' : w'.Declared s) (h : w.listing s.index = w'.listing s.index) :
    w.outline = w'.outline := by
  have hshows := Widget.shows_lines hs w hw 0
  have hshows' := Widget.shows_lines hs w' hw' 0
  have hlines : w.lines s.index 0 = w'.lines s.index 0 := by
    refine lines_eq_of_lineChars_eq (oneLine_of_forall₂ hshows) (oneLine_of_forall₂ hshows') ?_
    rw [← toList_listing, ← toList_listing, h]
  rw [hlines] at hshows
  have hunique : Relator.RightUnique Shows := fun line mark mark' hm hm' =>
    Mark.head_injective (hm.head.symm.trans hm'.head)
  have hmarks := List.right_unique_forall₂' hunique hshows hshows'
  exact (Outline.marks_append_inj _ _ (congrArg (· ++ []) hmarks)).1

/-- The trees of the shipped schema that bytes stand for are declared by it. -/
theorem declared_of_decode {bytes : List UInt8} {w : Widget}
    (h : Decode.decode .shipped bytes = .ok w) : w.Declared .shipped :=
  (Widget.known_iff_declared Schema.readable_shipped w).mp (Decode.decode_eq_ok_iff.mp h).1

/-- **No text can make a listing look like that of another tree.**  The listing of a decoded tree
has two lines for every widget and one for every property, and each of them is ended.  If the
listings of two decoded trees are the same, then so are the names of their widgets, in the same
nesting, and those of their properties, in the same order. -/
theorem listing_shows_outline {bytes : List UInt8} {w : Widget}
    (h : Decode.decode .shipped bytes = .ok w) :
    (∃ lines : List (List Char), (w.listing .shipped).toList = lines.flatMap (· ++ ['\n']) ∧
      (∀ line ∈ lines, '\n' ∉ line) ∧ lines.length = 2 * w.count + w.propertyCount) ∧
    ∀ (bytes' : List UInt8) (w' : Widget), Decode.decode .shipped bytes' = .ok w' →
      w.listing .shipped = w'.listing .shipped → w.outline = w'.outline := by
  have hdeclared := declared_of_decode h
  have hshows := Widget.shows_lines Schema.spellable_shipped w hdeclared 0
  constructor
  · refine ⟨(w.lines .shipped 0).map String.toList, ?_, ?_, ?_⟩
    · rw [toList_listing, lineChars, List.flatMap_map]
    · intro line hline
      obtain ⟨text, htext, rfl⟩ := List.mem_map.mp hline
      exact oneLine_of_forall₂ hshows text htext
    · rw [List.length_map, ← Widget.length_marks w]
      exact hshows.length_eq
  · intro bytes' w' h' heq
    exact outline_eq_of_listing_eq Schema.spellable_shipped hdeclared (declared_of_decode h') heq

/-- A slider whose text would end a line and close the widget if it were not quoted. -/
def Widget.slider (minimum : Single) : Widget :=
  ⟨"Slider", 12,
    [⟨"minimum", 11, .literal (.number minimum)⟩, ⟨"toolTip", 27, .literal (.string "\n\x7d")⟩], []⟩

theorem Widget.decode_slider (minimum : Single) :
    Decode.decode .shipped (Widget.slider minimum).encode = .ok (Widget.slider minimum) := by
  have hdeclared : (Widget.slider minimum).Declared .shipped := by
    simp [slider, Widget.Declared, Widget.DeclaredAll, Property.Declared, Schema.shipped,
      Value.suits_iff, Value.type, Value.Fits, Text.Utf8.encode, Char.utf8Size]
  have hknown := (Widget.known_iff_declared Schema.readable_shipped _).mpr hdeclared
  have hheight : (Widget.slider minimum).height ≤ maxDecodeDepth := by
    simp [slider, Widget.height, Widget.heightAll, maxDecodeDepth]
  exact Decode.decode_eq_ok_iff.mpr ⟨hknown, hheight, Widget.form_encode _ hknown⟩

/-- Two sliders with different bits that are no number, which a listing does not tell apart. -/
theorem listing_shows_outline_sliders :
    let w := Widget.slider ⟨0x7FC00000⟩
    let w' := Widget.slider ⟨0x7FC00001⟩
    Decode.decode .shipped w.encode = .ok w ∧ Decode.decode .shipped w'.encode = .ok w' ∧
      w.encode ≠ w'.encode ∧
      w.listing .shipped = "Slider \x7b\n    minimum: NaN;\n    toolTip: \"\\n\x7d\";\n\x7d\n" ∧
      w.listing .shipped = w'.listing .shipped ∧ w.outline = w'.outline ∧
      ∃ lines : List (List Char), (w.listing .shipped).toList = lines.flatMap (· ++ ['\n']) ∧
      lines.length = 4 := by
  intro w w'
  obtain ⟨⟨lines, htext, -, hlength⟩, hsame⟩ :=
    listing_shows_outline (Widget.decode_slider ⟨0x7FC00000⟩)
  have heq : w.listing .shipped = w'.listing .shipped := by decide +kernel
  exact ⟨Widget.decode_slider _, Widget.decode_slider _, by decide +kernel, by decide +kernel, heq,
    hsame _ _ (Widget.decode_slider ⟨0x7FC00001⟩) heq, lines, htext, hlength⟩

end WidgetLayout
