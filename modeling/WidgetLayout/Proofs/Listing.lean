/-
A listing of a tree is a source of it.

A listing shows a tree as a source would spell it.  Where nothing in the tree has lost its name or
its exact spelling, which is to say that there are no bindings, no resources and no fractions in it,
compiling the listing gives the bytes of the tree.

The argument follows the listing from left to right.  `ScansTo` says of a piece of text that tokens
of a certain form are taken from it whatever follows, so pieces can be put together.  A word is such
a piece only with the character after it, which must be none that the word could go on with; in a
listing that is a blank or a mark.  Then the lines of properties spell the properties, and the lines
of widgets, by induction on the tree, the widgets.
-/
import WidgetLayout.Proofs.Lookahead
import WidgetLayout.Proofs.Printing
import WidgetLayout.Proofs.RoundTrip
import WidgetLayout.Widget.Listing

namespace WidgetLayout

open WidgetLayout.TokenSource
open WidgetLayout.Text (isBlank isDigit)

/-! ### Pieces of a source

A listing is scanned in pieces.  Whatever follows a piece, its tokens are the same, and so pieces
can be put together. -/

theorem splitGap_of_isBlank {c : Char} (hc : isBlank c) (cs : List Char) :
    splitGap (c :: cs) = (c :: (splitGap cs).1, (splitGap cs).2) := by
  rw [splitGap]
  split
  · rename_i hnone
    rw [gapPiece?_of_isBlank hc] at hnone
    cases hnone
  · rename_i piece rest hsome
    rw [gapPiece?_of_isBlank hc] at hsome
    obtain ⟨rfl, rfl⟩ := Prod.mk.inj (Option.some.inj hsome)
    rfl

/-- Behind a blank the next token is the same. -/
theorem Lexer.next_of_isBlank {l : Lexer} {c : Char} {cs : List Char} (hc : isBlank c)
    (hlookahead : l.lookahead = none) (hrest : l.rest = c :: cs) :
    l.next = Lexer.next ⟨cs, l.cursor.next c, none⟩ := by
  rw [next_of_lookahead hlookahead, next_of_lookahead rfl]
  simp only [scan, hrest, splitGap_of_isBlank hc, hlookahead]
  rfl

/-- Whatever follows the text, a lexer takes tokens from it that satisfy the condition, and then
goes on with what follows. -/
def ScansTo (cs : List Char) (P : List Token → Prop) : Prop :=
  ∀ (l : Lexer) (rest : List Char), l.lookahead = none → l.rest = cs ++ rest →
    ∃ (ts : List Token) (l' : Lexer), P ts ∧ l'.lookahead = none ∧ l'.rest = rest ∧
      takeAll l = ts ++ takeAll l'

namespace ScansTo

variable {P Q : List Token → Prop} {a b cs : List Char}

theorem nil : ScansTo [] (· = []) :=
  fun l _ hlookahead hrest => ⟨[], l, rfl, hlookahead, hrest, rfl⟩

theorem mono (h : ScansTo cs P) (hPQ : ∀ ts, P ts → Q ts) : ScansTo cs Q := by
  intro l rest hlookahead hrest
  obtain ⟨ts, l', hts, hl'⟩ := h l rest hlookahead hrest
  exact ⟨ts, l', hPQ ts hts, hl'⟩

theorem append (ha : ScansTo a P) (hb : ScansTo b Q) :
    ScansTo (a ++ b) fun ts => ∃ x y, P x ∧ Q y ∧ ts = x ++ y := by
  intro l rest hlookahead hrest
  rw [List.append_assoc] at hrest
  obtain ⟨x, l₁, hx, hlookahead₁, hrest₁, htokens₁⟩ := ha l _ hlookahead hrest
  obtain ⟨y, l₂, hy, hlookahead₂, hrest₂, htokens₂⟩ := hb l₁ _ hlookahead₁ hrest₁
  refine ⟨x ++ y, l₂, ⟨x, y, hx, hy, rfl⟩, hlookahead₂, hrest₂, ?_⟩
  rw [htokens₁, htokens₂, List.append_assoc]

/-- A blank in front is skipped. -/
theorem blank {c : Char} (hc : isBlank c) (h : ScansTo cs P) : ScansTo (c :: cs) P := by
  intro l rest hlookahead hrest
  obtain ⟨ts, l', hts, hlookahead', hrest', htokens⟩ :=
    h ⟨cs ++ rest, l.cursor.next c, none⟩ rest rfl rfl
  have hrest : l.rest = c :: (cs ++ rest) := hrest
  refine ⟨ts, l', hts, hlookahead', hrest', ?_⟩
  rw [← htokens]
  refine takeAll_congr ?_
  show l.take = Lexer.take _
  unfold Lexer.take
  rw [Lexer.next_of_isBlank hc hlookahead hrest]

theorem blanks {bs : List Char} (hbs : ∀ c ∈ bs, isBlank c) (h : ScansTo cs P) :
    ScansTo (bs ++ cs) P := by
  induction bs with
  | nil => exact h
  | cons c bs ih =>
      obtain ⟨hc, hbs⟩ := List.forall_mem_cons.mp hbs
      exact (ih hbs).blank hc

/-- A word in front is taken, if it cannot go on with what follows. -/
theorem word (w : Word) {c : Char} (hc : ¬ isWordPart c ∧ c ≠ '.' ∧ c ≠ '%')
    (h : ScansTo (c :: cs) P) :
    ScansTo (w.print ++ c :: cs) fun ts => ∃ t l, t.face = w.face ∧ P l ∧ ts = t :: l := by
  intro l rest hlookahead hrest
  have hdelimits : Delimits (c :: cs ++ rest) := by
    rintro d ⟨⟩
    exact hc
  obtain ⟨d, ds, happend, hgap, hlexeme⟩ := splitLexeme_print w hdelimits
  have hafter : (splitGap l.rest).2 = d :: ds := by
    rw [hrest, List.append_assoc, happend]
    exact splitGap_separators [] hgap
  have hscan : l.scan.1.face = w.face ∧ l.scan.2.lookahead = none ∧
      l.scan.2.rest = c :: cs ++ rest := by
    simp [Lexer.scan, hafter, Lexer.tokenAt, hlexeme, Token.face, Word.face, hlookahead]
  have hkind : l.scan.1.kind ≠ .endOfFile := by
    have hspells := (spells_splitLexeme hgap).kind_ne
    rw [hlexeme] at hspells
    rw [show l.scan.1.kind = w.kind from congrArg Prod.fst hscan.1]
    exact hspells
  have htake : take l = (some l.scan.1, l.scan.2) := by
    rw [← Lexer.next_of_lookahead hlookahead] at hkind ⊢
    exact if_neg hkind
  obtain ⟨ts, l', hts, hlookahead', hrest', htokens⟩ := h l.scan.2 rest hscan.2.1 hscan.2.2
  refine ⟨l.scan.1 :: ts, l', ⟨_, ts, hscan.1, hts, rfl⟩, hlookahead', hrest', ?_⟩
  rw [takeAll_of_some htake, htokens]
  rfl

/-- Pieces for all members of a list, one after the other. -/
theorem flatMap {α : Type} {R : α → List Token → Prop} {f : α → List Char} {as : List α}
    (h : ∀ a ∈ as, ScansTo (f a) (R a)) : ScansTo (as.flatMap f) (Joined R as) := by
  induction as with
  | nil => exact nil
  | cons a as ih =>
      obtain ⟨ha, has⟩ := List.forall_mem_cons.mp h
      exact ha.append (ih has)

/-- The tokens of a source that is one piece. -/
theorem tokens {source : String} (h : ScansTo source.toList P) : P (tokenize source).dropLast := by
  obtain ⟨ts, l, hts, hlookahead, hrest, htokens⟩ :=
    h (.ofSource source) [] rfl (List.append_nil _).symm
  have hend : take l = (none, l.peek.2) := by
    refine if_pos ?_
    rw [Lexer.next_of_lookahead hlookahead, Lexer.scan_nil hrest]
  rw [takeAll_of_none hend, List.append_nil] at htokens
  rw [dropLast_tokenize, htokens]
  exact hts

end ScansTo

/-! ### Words of a listing

Names, numbers and quoted texts are one token each, as long as no character is shown by an escape
that sources do not have. -/

/-- Whether a text is an identifier. -/
def isName : List Char → Bool
  | [] => false
  | c :: cs => isWordStart c && cs.all isWordPart

theorem exists_word_name (name : String) (h : isName name.toList) :
    ∃ w : Word, w.print = name.toList ∧ w.face = (.identifier, name) := by
  cases hchars : name.toList with
  | nil =>
      rw [hchars] at h
      cases h
  | cons c cs =>
      rw [hchars, isName, Bool.and_eq_true, List.all_eq_true] at h
      refine ⟨.identifier c cs h.1 h.2, rfl, ?_⟩
      rw [Word.face, Word.text, ← hchars, String.ofList_toList]
      rfl

/-- Digits that are read do not make the number smaller. -/
theorem le_ofDigitChars (cs : List Char) (n : Nat) : n ≤ Nat.ofDigitChars 10 cs n := by
  induction cs generalizing n with
  | nil => exact Nat.le_refl n
  | cons c cs ih =>
      rw [Nat.ofDigitChars_cons]
      have := ih (10 * n + (c.toNat - '0'.toNat))
      omega

theorem readDigits_eq_ok {cs : List Char} {n : Nat} (hcs : ∀ c ∈ cs, isDigit c)
    (hlt : Nat.ofDigitChars 10 cs n < 0x100000000) :
    Text.readDigits n cs = .ok (Nat.ofDigitChars 10 cs n) := by
  induction cs generalizing n with
  | nil => rfl
  | cons c cs ih =>
      obtain ⟨hc, hcs⟩ := List.forall_mem_cons.mp hcs
      rw [Nat.ofDigitChars_cons] at hlt ⊢
      have hvalue : n * 10 + Text.digitValue c = 10 * n + (c.toNat - '0'.toNat) := by
        rw [Text.digitValue, Nat.mul_comm]
      have hle := le_ofDigitChars cs (10 * n + (c.toNat - '0'.toNat))
      rw [Text.readDigits, if_pos hc, hvalue, if_pos (Nat.lt_of_le_of_lt hle hlt)]
      exact ih hcs hlt

/-- The decimal digits of a number. -/
theorem toList_toString (n : UInt32) : (toString n).toList = Nat.toDigits 10 n.toNat :=
  Nat.toList_repr

theorem isDigit_of_mem_toString {n : UInt32} {c : Char} (h : c ∈ (toString n).toList) :
    isDigit c := by
  rw [toList_toString] at h
  have hdigit := Nat.isDigit_of_mem_toDigits (by decide) (by decide) h
  simpa [Char.isDigit, isDigit, Char.le_def] using hdigit

/-- A number is read back from its decimal digits. -/
theorem readUInt32_toString (n : UInt32) : Text.readUInt32 (toString n).toList = .ok n := by
  have hvalue : Nat.ofDigitChars 10 (toString n).toList 0 = n.toNat := by
    rw [toList_toString]
    exact Nat.ofDigitChars_toDigits (by decide) (by decide)
  have hread := readDigits_eq_ok (n := 0) (fun c hc => isDigit_of_mem_toString hc) (by
    rw [hvalue]
    exact n.toNat_lt)
  obtain ⟨d, ds, hchars⟩ : ∃ d ds, (toString n).toList = d :: ds := by
    rw [toList_toString]
    exact List.exists_cons_of_ne_nil Nat.toDigits_ne_nil
  have hplus : d ≠ '+' := by
    have hd : isDigit d := isDigit_of_mem_toString (n := n) (by simp [hchars])
    rintro rfl
    exact absurd hd (by decide)
  rw [hvalue, hchars] at hread
  rw [hchars, Text.readUInt32, hread]
  · simp [Functor.map, Except.map]
  · simp
  · intro heq
    exact absurd (List.cons.inj heq).1 hplus
  · intro cs heq
    exact absurd (List.cons.inj heq).1 hplus

theorem exists_word_numeral (n : UInt32) :
    ∃ w : Word, w.print = (toString n).toList ∧ w.face = (.integer, toString n) := by
  have hne : (toString n).toList ≠ [] := by
    rw [toList_toString]
    exact Nat.toDigits_ne_nil
  have htext :
      (Word.number false ⟨_, hne, fun _ hc => isDigit_of_mem_toString hc⟩ none false).text =
      (toString n).toList := by
    simp [Word.text, Word.fractionText]
  refine ⟨.number false ⟨_, hne, fun _ hc => isDigit_of_mem_toString hc⟩ none false, htext, ?_⟩
  rw [Word.face, htext, String.ofList_toList]
  rfl

/-- Whether a character is shown in a listing as a source would have it: those of ASCII that are
visible, the blank and the controls that have a letter. -/
def isPlain (c : Char) : Bool := (' ' ≤ c && c ≤ '~') || c = '\t' || c = '\n' || c = '\r'

theorem not_isHidden_of_isPlain {c : Char} (h : isPlain c) (htab : c ≠ '\t') (hnewline : c ≠ '\n')
    (hreturn : c ≠ '\r') : Text.isHidden c = false := by
  simp only [isPlain, Char.le_def, UInt32.le_iff_toNat_le, Bool.or_eq_true, Bool.and_eq_true,
    decide_eq_true_eq, htab, hnewline, hreturn, or_false] at h
  have hcode : 32 ≤ c.toNat ∧ c.toNat ≤ 126 := h
  have hlow : c.toNat < 0x7f := by omega
  simp only [Text.isHidden, if_pos hlow]
  simpa using hcode.1

theorem spell_eq_escapeChar {c : Char} (h : isPlain c) : Text.spell c = escapeChar c := by
  unfold escapeChar
  split
  · rfl
  · rfl
  · rfl
  · rfl
  · rfl
  · rename_i hbackslash hquote hnewline hreturn htab
    have hnull : c ≠ '\x00' := by
      rintro rfl
      exact absurd h (by decide)
    rw [Text.spell, if_neg (by simp [not_isHidden_of_isPlain h htab hnewline hreturn])]
    all_goals assumption

theorem exists_word_quoted {text : String} (h : ∀ c ∈ text.toList, isPlain c) :
    ∃ w : Word, w.print = (quoted text).toList ∧ w.face = (.string, text) := by
  refine ⟨.string text.toList, ?_, ?_⟩
  · have hspell : text.toList.flatMap Text.spell = escape text.toList :=
      List.flatMap_congr fun c hc => spell_eq_escapeChar (h c hc)
    rw [quoted, String.toList_ofList, Text.quote, hspell]
    rfl
  · rw [Word.face, Word.text, String.ofList_toList]
    rfl

/-! ### Values -/

/-- A size that a listing shows exactly. -/
def SizeItem.Listable : SizeItem → Prop
  | .percentage _ => False
  | _ => True

/-- A value that a listing shows exactly, so that it can be read back. -/
def Value.Listable (s : Schema) : Value → Prop
  | .integer _ | .boolean _ | .margins _ => True
  | .enumeration value => value ∈ s.enumerations.map EnumerationEntry.value
  | .string text => ∀ c ∈ text.toList, isPlain c
  | .sizeList items => ∀ item ∈ items, item.Listable
  | .number _ | .resource _ => False

/-- The rules for a schema whose listings are to be compiled. -/
@[mk_iff]
structure Schema.Spellable (s : Schema) : Prop where
  widgets_nodup : (s.widgets.map WidgetEntry.name).Nodup
  properties_nodup : (s.properties.map PropertyEntry.name).Nodup
  enumerations_nodup : (s.enumerations.map EnumerationEntry.name).Nodup
  widget_name : ∀ e ∈ s.widgets, isName e.name.toList
  property_name : ∀ e ∈ s.properties, isName e.name.toList
  /-- A literal must not look like a binding. -/
  enumeration_name : ∀ e ∈ s.enumerations, isName e.name.toList ∧ e.name ≠ "bind"
  /-- A value is shown by the name of its own row. -/
  enumeration_shown : ∀ e ∈ s.enumerations, s.index.enumerationName? e.value = some e.name
  /-- A child must not look like a property. -/
  widget_ne_property : ∀ e ∈ s.widgets, e.name ∉ s.properties.map PropertyEntry.name

instance (s : Schema) : Decidable s.Spellable := decidable_of_iff _ s.spellable_iff.symm

theorem Schema.spellable_shipped : Schema.shipped.Spellable := by decide +kernel

section Spellings

variable {s : Schema} {resources : BindingTable}

/-- A literal of one word, its semicolon and the end of its line. -/
theorem scansTo_ended (w : Word) :
    ScansTo (w.print ++ [';', '\n']) fun ts => ∃ t semi, t.face = w.face ∧ semi.kind = .semicolon ∧
      ts = [t, semi] := by
  have hline : ScansTo ['\n'] (· = []) := ScansTo.nil.blank (by decide)
  have hsemi := hline.word (.punctuation (';', .semicolon) (by decide)) (by decide)
  refine (ScansTo.word w (by decide) hsemi).mono ?_
  rintro _ ⟨t, _, ht, ⟨semi, _, hsemi, rfl, rfl⟩, rfl⟩
  exact ⟨t, semi, ht, congrArg Prod.fst hsemi, rfl⟩

/-- Items with commas between them, their semicolon and the end of their line. -/
theorem scansTo_items {α : Type} {R : α → Token → Prop} {f : α → String} (as : List α) :
    ∀ a,
      (∀ b ∈ a :: as, ∃ w : Word, w.print = (f b).toList ∧ ∀ t : Token, t.face = w.face → R b t) →
      ScansTo ((commaSeparated ((a :: as).map f)).toList ++ [';', '\n']) fun ts =>
        ∃ t l semi, R a t ∧ Literal.More R as l ∧ semi.kind = .semicolon ∧
          ts = t :: l ++ [semi] := by
  -- the induction is on the items after the first one, which ends where their comma or the
  -- semicolon begins
  induction as with
  | nil =>
      intro a hitems
      obtain ⟨w, hprint, hface⟩ := hitems a List.mem_cons_self
      have htext : (commaSeparated ([a].map f)).toList = w.print := by simp [commaSeparated, hprint]
      rw [htext]
      refine (scansTo_ended w).mono ?_
      rintro _ ⟨t, semi, ht, hsemi, rfl⟩
      exact ⟨t, [], semi, hface t ht, .nil, hsemi, rfl⟩
  | cons b as ih =>
      intro a hitems
      obtain ⟨ha, has⟩ := List.forall_mem_cons.mp hitems
      obtain ⟨w, hprint, hface⟩ := ha
      have htext : (commaSeparated ((a :: b :: as).map f)).toList ++ [';', '\n'] =
          w.print ++ ',' :: ' ' :: ((commaSeparated ((b :: as).map f)).toList ++ [';', '\n']) := by
        simp [commaSeparated, hprint]
      have hcomma :=
        ((ih b has).blank (c := ' ') (by decide)).word
          (.punctuation (',', .comma) (by decide)) (by decide)
      rw [htext]
      refine (ScansTo.word w (by decide) hcomma).mono ?_
      rintro _ ⟨t, _, ht, ⟨comma, _, hcomma, ⟨u, l, semi, hu, hl, hsemi, rfl⟩, rfl⟩, rfl⟩
      exact ⟨t, comma :: u :: l, semi, hface t ht,
        .cons (congrArg Prod.fst hcomma) hu hl, hsemi, rfl⟩

/-- The token of an enumeration value, by the name of its row. -/
theorem exists_word_enumeration (hs : s.Spellable) {value : UInt8}
    (hvalue : value ∈ s.enumerations.map EnumerationEntry.value) :
    ∃ (w : Word) (e : EnumerationEntry),
      w.print = (Value.listing s.index (.enumeration value)).toList ∧
      w.face = (.identifier, e.name) ∧ s.index.enumeration? e.name = some e ∧ e.value = value ∧
      e.name ≠ "bind" := by
  obtain ⟨e, he, rfl⟩ := List.mem_map.mp hvalue
  obtain ⟨hname, hbind⟩ := hs.enumeration_name e he
  obtain ⟨w, hprint, hface⟩ := exists_word_name _ hname
  refine ⟨w, e, ?_, hface, ?_, rfl, hbind⟩
  · -- the listing looks the value up, and finds the row whose name is looked up again by the
    -- compiler
    rw [Value.listing, hs.enumeration_shown e he]
    exact hprint
  · exact (Dictionary.get?_ofList_map_eq_some_iff hs.enumerations_nodup).mpr ⟨he, rfl⟩

theorem integerToken_of_face {n : UInt32} {t : Token} (h : t.face = (.integer, toString n)) :
    Literal.IntegerToken n t := by
  obtain ⟨hkind, htext⟩ := Prod.mk.inj h
  refine ⟨hkind, ?_⟩
  rw [htext]
  exact readUInt32_toString n

theorem exists_word_integer (n : UInt32) :
    ∃ w : Word, w.print = (toString n).toList ∧ ∀ t : Token, t.face = w.face →
      Literal.IntegerToken n t := by
  obtain ⟨w, hprint, hface⟩ := exists_word_numeral n
  exact ⟨w, hprint, fun t ht => integerToken_of_face (ht.trans hface)⟩

theorem exists_word_size {item : SizeItem} (h : item.Listable) :
    ∃ w : Word, w.print = item.listing.toList ∧ ∀ t : Token, t.face = w.face →
      Literal.SizeToken item t := by
  cases item with
  | auto =>
      obtain ⟨w, hprint, hface⟩ := exists_word_name "auto" (by decide)
      refine ⟨w, hprint, fun t ht => ?_⟩
      obtain ⟨hkind, htext⟩ := Prod.mk.inj (ht.trans hface)
      exact .auto hkind htext
  | expand =>
      obtain ⟨w, hprint, hface⟩ := exists_word_name "expand" (by decide)
      refine ⟨w, hprint, fun t ht => ?_⟩
      obtain ⟨hkind, htext⟩ := Prod.mk.inj (ht.trans hface)
      exact .expand hkind htext
  | pixels n =>
      obtain ⟨w, hprint, hface⟩ := exists_word_integer n
      exact ⟨w, hprint, fun t ht => .pixels (hface t ht)⟩
  | percentage x => exact absurd h id

/-- A literal that is spelled by tokens, the first of which does not begin a binding. -/
def Literal.SpelledFree (symbols : SymbolTables) (resources : BindingTable) (v : Value)
    (ts : List Token) : Prop :=
  Literal.Spelled symbols resources v.type v ts ∧ ∀ t, ts.head? = some t → t.isWord "bind" = false

/-- A literal of one word is read back. -/
theorem scansTo_literal {w : Word} {v : Value} (hbind : w.face ≠ (.identifier, "bind"))
    (h : ∀ t semi : Token, t.face = w.face → semi.kind = .semicolon →
      Literal.Spelled s.index resources v.type v [t, semi]) :
    ScansTo (w.print ++ [';', '\n']) (Literal.SpelledFree s.index resources v) := by
  refine (scansTo_ended w).mono ?_
  rintro _ ⟨t, semi, ht, hsemi, rfl⟩
  refine ⟨h t semi ht hsemi, ?_⟩
  rintro _ ⟨⟩
  rw [← ht] at hbind
  simpa [Token.isWord, Token.face] using hbind

/-- **A value is read back from its listing**, up to the end of its line. -/
theorem Value.scansTo_listing (resources : BindingTable) (hs : s.Spellable) {v : Value}
    (hv : v.Listable s) (hne : v ≠ .sizeList []) :
    ScansTo ((v.listing s.index).toList ++ [';', '\n'])
      (Literal.SpelledFree s.index resources v) := by
  cases v with
  | integer n =>
      obtain ⟨w, hprint, hface⟩ := exists_word_numeral n
      show ScansTo ((toString n).toList ++ _) _
      rw [← hprint]
      refine scansTo_literal (by simp [hface]) fun t semi ht hsemi => ?_
      exact .integer (integerToken_of_face (ht.trans hface)) hsemi
  | enumeration value =>
      obtain ⟨w, e, hprint, hface, hentry, rfl, hbind⟩ := exists_word_enumeration hs hv
      rw [← hprint]
      refine scansTo_literal (by simp [hface, hbind]) fun t semi ht hsemi => ?_
      obtain ⟨hkind, htext⟩ := Prod.mk.inj (ht.trans hface)
      exact .enumeration hkind (htext ▸ hentry) hsemi
  | string text =>
      obtain ⟨w, hprint, hface⟩ := exists_word_quoted hv
      show ScansTo ((quoted text).toList ++ _) _
      rw [← hprint]
      refine scansTo_literal (by simp [hface]) fun t semi ht hsemi => ?_
      obtain ⟨hkind, rfl⟩ := Prod.mk.inj (ht.trans hface)
      exact .string hkind hsemi
  | boolean b =>
      have hword : isName (if b then "true" else "false").toList ∧
          Literal.boolean? (if b then "true" else "false") = some b ∧
          (if b then "true" else "false") ≠ "bind" := by
        cases b <;> decide
      obtain ⟨hname, hb, hbind⟩ := hword
      obtain ⟨w, hprint, hface⟩ := exists_word_name _ hname
      show ScansTo ((if b then "true" else "false").toList ++ _) _
      rw [← hprint]
      refine scansTo_literal (by simp [hface, hbind]) fun t semi ht hsemi => ?_
      obtain ⟨hkind, htext⟩ := Prod.mk.inj (ht.trans hface)
      exact .boolean hkind (htext ▸ hb) hsemi
  | margins m =>
      refine (scansTo_items [m.second, m.third, m.fourth] m.first fun n _ =>
        exists_word_integer n).mono ?_
      rintro _ ⟨t, l, semi, ht, hl, hsemi, rfl⟩
      refine ⟨.margins ht hl rfl hsemi, ?_⟩
      rintro _ ⟨⟩
      simp [Token.isWord, ht.1]
  | sizeList items =>
      cases items with
      | nil => exact absurd rfl hne
      | cons item items =>
          refine (scansTo_items items item fun i hi => exists_word_size (hv i hi)).mono ?_
          rintro _ ⟨t, l, semi, ht, hl, hsemi, rfl⟩
          refine ⟨.sizeList ht hl hsemi, ?_⟩
          rintro _ ⟨⟩
          cases ht with
          | auto hkind htext => simp [Token.isWord, htext]
          | expand hkind htext => simp [Token.isWord, htext]
          | pixels ht => simp [Token.isWord, ht.1]
          | percentage hkind => simp [Token.isWord, hkind]
  | number x => exact absurd hv not_false
  | resource x => exact absurd hv not_false

end Spellings

/-! ### Trees -/

/-- A property value that a listing shows exactly. -/
def PropertyValue.Listable (s : Schema) : PropertyValue → Prop
  | .literal v => v.Listable s
  | .binding _ => False

mutual

/-- All properties of a tree are shown exactly. -/
def Widget.Listable (s : Schema) : Widget → Prop
  | ⟨_, _, properties, children⟩ =>
      (∀ p ∈ properties, p.value.Listable s) ∧ Widget.ListableAll s children

/-- All properties of several trees are shown exactly. -/
def Widget.ListableAll (s : Schema) : List Widget → Prop
  | [] => True
  | w :: ws => Widget.Listable s w ∧ Widget.ListableAll s ws

end

/-- The characters of lines, each with its end. -/
def lineChars (lines : List String) : List Char := lines.flatMap fun line => line.toList ++ ['\n']

theorem toList_listing (symbols : SymbolTables) (w : Widget) :
    (w.listing symbols).toList = lineChars (w.lines symbols 0) := by
  simp only [Widget.listing, lineChars, String.toList_join, List.flatMap_map, String.toList_append]
  rfl

theorem isBlank_margin (level : Nat) : ∀ c ∈ (Widget.margin level).toList, isBlank c := by
  intro c h
  rw [Widget.margin, String.toList_ofList] at h
  rw [List.eq_of_mem_replicate h]
  decide

/-- The line that opens a widget. -/
theorem scansTo_openLine (w : Word) (level : Nat) :
    ScansTo ((Widget.margin level).toList ++ (w.print ++ [' ', '\x7b', '\n'])) fun ts =>
      ∃ word opening, word.face = w.face ∧ opening.kind = .openBrace ∧ ts = [word, opening] := by
  have hend : ScansTo ['\n'] (· = []) := ScansTo.nil.blank (by decide)
  have hopening := (hend.word (.punctuation ('\x7b', .openBrace) (by decide)) (by decide)).blank
    (c := ' ') (by decide)
  refine ((hopening.word w (by decide)).blanks (isBlank_margin level)).mono ?_
  rintro _ ⟨word, _, hword, ⟨opening, _, hopening, rfl, rfl⟩, rfl⟩
  exact ⟨word, opening, hword, congrArg Prod.fst hopening, rfl⟩

/-- The line that closes a widget. -/
theorem scansTo_closeLine (level : Nat) :
    ScansTo ((Widget.margin level).toList ++ ['\x7d', '\n']) fun ts =>
      ∃ closing, closing.kind = .closeBrace ∧ ts = [closing] := by
  have hend : ScansTo ['\n'] (· = []) := ScansTo.nil.blank (by decide)
  have hclosing := hend.word (.punctuation ('\x7d', .closeBrace) (by decide)) (by decide)
  refine (hclosing.blanks (isBlank_margin level)).mono ?_
  rintro _ ⟨closing, _, hclosing, rfl, rfl⟩
  exact ⟨closing, congrArg Prod.fst hclosing, rfl⟩

section Trees

variable {s : Schema} {context : Context}

/-- The line of a property spells it. -/
theorem Property.scansTo_line (hs : s.Spellable) (hcontext : context.symbols = s.index)
    {p : Property} (hdeclared : p.Declared s) (hlistable : p.value.Listable s) (level : Nat) :
    ScansTo
      ((Widget.margin level ++ p.name ++ ": " ++ p.value.listing s.index ++ ";").toList ++ ['\n'])
      (p.Spelled context) := by
  obtain ⟨name, id, value⟩ := p
  obtain ⟨type, hmem, hsuits⟩ := hdeclared
  cases value with
  | binding n => exact absurd hlistable not_false
  | literal v =>
      obtain ⟨rfl, hfits, hne⟩ := hsuits v rfl
      obtain ⟨w, hprint, hface⟩ := exists_word_name name (hs.property_name _ hmem)
      have hvalue := (Value.scansTo_listing context.bindings.resources hs hlistable hne).blank
        (c := ' ') (by decide)
      have hcolon := hvalue.word (.punctuation (':', .colon) (by decide)) (by decide)
      have hline := (hcolon.word w (by decide)).blanks (isBlank_margin level)
      have htext : (Widget.margin level ++ name ++ ": " ++
          (PropertyValue.literal v).listing s.index ++ ";").toList ++
          ['\n'] = (Widget.margin level).toList ++
            (w.print ++ (':' :: ' ' :: ((v.listing s.index).toList ++ [';', '\n']))) := by
        simp [PropertyValue.listing, hprint]
      rw [htext]
      refine hline.mono ?_
      rintro _ ⟨t, _, ht, ⟨colon, l, hcolon, ⟨hl, hbind⟩, rfl⟩, rfl⟩
      obtain ⟨hkind, htext⟩ := Prod.mk.inj (ht.trans hface)
      have hentry : context.symbols.property? t.text = some ⟨name, id, v.type⟩ := by
        rw [hcontext, htext]
        exact (Dictionary.get?_ofList_map_eq_some_iff hs.properties_nodup).mpr ⟨hmem, rfl⟩
      rw [← hcontext] at hl
      exact .literal hkind hentry (congrArg Prod.fst hcolon) hl hbind hfits

/-- A tree begins with the name of a widget, which is no property. -/
theorem Widget.Spelled.head_not_property (hs : s.Spellable)
    (hcontext : context.symbols = s.index) {w : Widget} {l : List Token} (h : w.Spelled context l) :
    ∀ t, l.head? = some t → context.symbols.property? t.text = none := by
  obtain ⟨name, tag, properties, children⟩ := w
  rw [Widget.Spelled] at h
  obtain ⟨word, opening, closing, ps, cs, hkind, hentry, -, -, -, -, rfl⟩ := h
  rintro _ ⟨⟩
  rw [hcontext] at hentry ⊢
  obtain ⟨hmem, hname⟩ := Dictionary.mem_of_get?_ofList_map hentry
  cases hproperty : s.index.property? word.text with
  | none => rfl
  | some e =>
      obtain ⟨he, hename⟩ := Dictionary.mem_of_get?_ofList_map hproperty
      refine absurd (List.mem_map.mpr ⟨e, he, ?_⟩) (hs.widget_ne_property _ hmem)
      exact hename.trans hname.symm

mutual

/-- **The lines of a tree spell it.** -/
theorem Widget.scansTo_lines (hs : s.Spellable) (hcontext : context.symbols = s.index) :
    (w : Widget) →
    w.Declared s → w.Listable s →
    ∀ level, ScansTo (lineChars (w.lines s.index level)) (w.Spelled context)
  | ⟨name, tag, properties, children⟩, hdeclared, hlistable, level => by
      rw [Widget.Declared] at hdeclared
      rw [Widget.Listable] at hlistable
      obtain ⟨hmem, hproperties, hchildren⟩ := hdeclared
      obtain ⟨w, hprint, hface⟩ := exists_word_name name (hs.widget_name _ hmem)
      have hinner := ScansTo.flatMap fun p hp =>
        Property.scansTo_line hs hcontext (hproperties p hp) (hlistable.1 p hp) (level + 1)
      have hbelow := Widget.scansTo_linesAll hs hcontext children hchildren hlistable.2 (level + 1)
      have htext : lineChars (Widget.lines s.index level ⟨name, tag, properties, children⟩) =
          (Widget.margin level).toList ++ (w.print ++ [' ', '\x7b', '\n']) ++
            properties.flatMap (fun p => (Widget.margin (level + 1) ++ p.name ++ ": " ++
              p.value.listing s.index ++ ";").toList ++ ['\n']) ++
            lineChars (Widget.linesAll s.index (level + 1) children) ++
              ((Widget.margin level).toList ++ ['\x7d', '\n']) := by
        rw [Widget.lines]
        simp [lineChars, hprint, List.flatMap_map]
      rw [htext]
      -- what the four pieces give is what the grammar asks of a widget, in the same order
      refine ((((scansTo_openLine w level).append hinner).append hbelow).append
        (scansTo_closeLine level)).mono ?_
      rintro _ ⟨_, _, ⟨_, cs, ⟨_, ps, ⟨word, opening, hword, hopening, rfl⟩, hps, rfl⟩, hcs, rfl⟩,
        ⟨closing, hclosing, rfl⟩, rfl⟩
      obtain ⟨hkind, htext⟩ := Prod.mk.inj (hword.trans hface)
      rw [Widget.Spelled]
      refine ⟨word, opening, closing, ps, cs, hkind, ?_, hopening, hclosing, hps, hcs, rfl⟩
      rw [hcontext, htext]
      exact (Dictionary.get?_ofList_map_eq_some_iff hs.widgets_nodup).mpr ⟨hmem, rfl⟩

theorem Widget.scansTo_linesAll (hs : s.Spellable) (hcontext : context.symbols = s.index) :
    (ws : List Widget) → Widget.DeclaredAll s ws → Widget.ListableAll s ws →
      ∀ level,
        ScansTo (lineChars (Widget.linesAll s.index level ws)) (Widget.ChildrenSpelled context ws)
  | [], _, _, level => by
      rw [Widget.linesAll]
      refine ScansTo.nil.mono ?_
      rintro _ rfl
      rw [Widget.ChildrenSpelled]
  | w :: ws, hdeclared, hlistable, level => by
      rw [Widget.DeclaredAll] at hdeclared
      rw [Widget.ListableAll] at hlistable
      have hw := Widget.scansTo_lines hs hcontext w hdeclared.1 hlistable.1 level
      have hws := Widget.scansTo_linesAll hs hcontext ws hdeclared.2 hlistable.2 level
      have htext : lineChars (Widget.linesAll s.index level (w :: ws)) =
          lineChars (w.lines s.index level) ++ lineChars (Widget.linesAll s.index level ws) := by
        rw [Widget.linesAll, lineChars, List.flatMap_append]
        rfl
      rw [htext]
      refine (hw.append hws).mono ?_
      rintro _ ⟨l₁, l₂, hl₁, hl₂, rfl⟩
      rw [Widget.ChildrenSpelled]
      exact ⟨l₁, l₂, hl₁, Widget.Spelled.head_not_property hs hcontext hl₁, hl₂, rfl⟩

end

end Trees

/-- **A listing compiles to the bytes of its tree.**  Take a tree that the shipped schema declares,
nested no deeper than sources may be, whose properties are integers, named enumeration values, truth
values, margins, texts of plain characters and sizes without percentages.  Its listing is a source,
and that source compiles to the canonical bytes of the tree. -/
theorem compileSource_listing {w : Widget} (hdeclared : w.Declared .shipped)
    (hheight : w.height ≤ 64) (hlistable : w.Listable .shipped) :
    (compileSource .default (w.listing .shipped)).map Output.bytes = .ok w.encode := by
  have hlines : ScansTo (w.listing .shipped).toList (w.Spelled Options.default.context) := by
    rw [toList_listing]
    exact Widget.scansTo_lines Schema.spellable_shipped rfl w hdeclared hlistable 0
  have hsize : Options.default.checkSize (w.listing .shipped) = .ok () := rfl
  obtain ⟨out, hout, hbytes, -⟩ := compileSource_of_spelled hsize hheight hlines.tokens
  rw [hout, ← hbytes]
  rfl

/-- A grid with a box in it, and a value of every kind that is listed exactly. -/
def Widget.settings : Widget :=
  ⟨"GridLayout", 22,
    [⟨"rows", 16, .literal (.sizeList [.auto, .pixels 300, .expand])⟩,
      ⟨"padding", 4, .literal (.margins ⟨1, 2, 3, 4⟩)⟩],
    [⟨"CheckBox", 8,
      [⟨"text", 10, .literal (.string "say \"yes\"\n\\")⟩,
        ⟨"isChecked", 22, .literal (.boolean true)⟩,
        ⟨"visibility", 6, .literal (.enumeration 9)⟩, ⟨"left", 18, .literal (.integer 4294967295)⟩],
        []⟩]⟩

theorem compileSource_listing_settings :
    Widget.settings.Declared .shipped ∧ Widget.settings.height ≤ 64 ∧
      Widget.settings.Listable .shipped ∧ Widget.settings.listing .shipped =
        "GridLayout \x7b\n    rows: auto, 300, expand;\n    padding: 1, 2, 3, 4;\n    CheckBox \x7b\n" ++
          "        text: \"say \\\"yes\\\"\\n\\\\\";\n        isChecked: true;\n        visibility: hidden;\n" ++
            "        left: 4294967295;\n    \x7d\n\x7d\n" ∧
      (compileSource .default (Widget.settings.listing .shipped)).map Output.bytes =
        .ok Widget.settings.encode := by
  have hdeclared : Widget.settings.Declared .shipped := by
    simp [Widget.settings, Widget.Declared, Widget.DeclaredAll, Property.Declared, Schema.shipped,
      Value.suits_iff, Value.type, Value.Fits, Text.Utf8.encode, Char.utf8Size]
  have hlistable : Widget.settings.Listable .shipped := by
    simp [Widget.settings, Widget.Listable, Widget.ListableAll, PropertyValue.Listable,
      Value.Listable, SizeItem.Listable, Schema.shipped, isPlain]
  have hheight : Widget.settings.height ≤ 64 := by decide
  exact ⟨hdeclared, hheight, hlistable, by decide +kernel,
    compileSource_listing hdeclared hheight hlistable⟩

end WidgetLayout
