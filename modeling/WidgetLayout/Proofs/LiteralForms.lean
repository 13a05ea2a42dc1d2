/-
The forms of literals, without their semicolons.

`Phrase` lists the forms one by one, down to the three counts that margins may have.  A literal is a
phrase of its type and one semicolon, and since no phrase holds a semicolon, the first one in the
tokens is where the literal ends: reading succeeds on that and on nothing else.

A wrong number of margins is always told as such.  How far reading gets then is read off the bound
of `moreMargins`: it stops at the semicolon or at the fourth comma, whichever comes first.
-/
import WidgetLayout.Proofs.Literal

namespace WidgetLayout.Literal

open WidgetLayout.Compile WidgetLayout.Progress

/-! ### Phrases

The literals of `Spelled` once more, type by type and without their semicolon, as one would lay
them out in a table. -/

/-- Items with commas between them; there may be none. -/
inductive CommaList {α : Type} (R : α → Token → Prop) : List α → List Token → Prop
  | nil : CommaList R [] []
  | cons {a : α} {as : List α} {t : Token} {l : List Token} (ha : R a t) (hmore : More R as l) :
      CommaList R (a :: as) (t :: l)

/-- The tokens of a literal of a type up to its semicolon, with the value that they stand for. -/
inductive Phrase (symbols : SymbolTables) (resources : BindingTable) :
    ValueType → Value → List Token → Prop
  | integer {n : UInt32} {t : Token} (ht : IntegerToken n t) :
      Phrase symbols resources .integer (.integer n) [t]
  | number {x : Single} {t : Token} (hkind : t.kind = .integer ∨ t.kind = .number)
      (hx : Single.read t.text.toList = .ok x) : Phrase symbols resources .number (.number x) [t]
  | enumeration {entry : EnumerationEntry} {t : Token} (hkind : t.kind = .identifier)
      (hentry : symbols.enumeration? t.text = some entry) :
      Phrase symbols resources .enumeration (.enumeration entry.value) [t]
  | string {t : Token} (hkind : t.kind = .string) :
      Phrase symbols resources .string (.string t.text) [t]
  | yes {t : Token} (hkind : t.kind = .identifier) (htext : t.text = "true" ∨ t.text = "yes") :
      Phrase symbols resources .boolean (.boolean true) [t]
  | no {t : Token} (hkind : t.kind = .identifier) (htext : t.text = "false" ∨ t.text = "no") :
      Phrase symbols resources .boolean (.boolean false) [t]
  | margins₁ {a : UInt32} {l : List Token} (hl : CommaList IntegerToken [a] l) :
      Phrase symbols resources .margins (.margins ⟨a, a, a, a⟩) l
  | margins₂ {a b : UInt32} {l : List Token} (hl : CommaList IntegerToken [a, b] l) :
      Phrase symbols resources .margins (.margins ⟨a, b, a, b⟩) l
  | margins₄ {a b c d : UInt32} {l : List Token} (hl : CommaList IntegerToken [a, b, c, d] l) :
      Phrase symbols resources .margins (.margins ⟨a, b, c, d⟩) l
  | sizeList {items : List SizeItem} {l : List Token} (hne : items ≠ [])
      (hl : CommaList SizeToken items l) : Phrase symbols resources .sizeList (.sizeList items) l
  | resource {id : UInt32} {word opening name closing : Token} (hkind : word.kind = .identifier)
      (hword : word.text = "resource") (hopening : opening.kind = .openParens)
      (hname : name.kind = .string) (hclosing : closing.kind = .closeParens)
      (hid : resources.get? name.text = some id) :
      Phrase symbols resources .resource (.resource id) [word, opening, name, closing]

/-! ### No phrase holds a semicolon

So a literal ends at the first semicolon, and none is the beginning of another. -/

theorem More.kind_ne_semicolon {α : Type} {R : α → Token → Prop} {as : List α} {l : List Token}
    (h : More R as l) (hR : ∀ a t, R a t → t.kind ≠ .semicolon) : ∀ t ∈ l, t.kind ≠ .semicolon := by
  induction h with
  | nil => exact List.forall_mem_nil _
  | cons hcomma ha _ ih =>
      refine List.forall_mem_cons.mpr ⟨?_, List.forall_mem_cons.mpr ⟨hR _ _ ha, ih⟩⟩
      rw [hcomma]
      decide

theorem CommaList.kind_ne_semicolon {α : Type} {R : α → Token → Prop} {as : List α} {l : List Token}
    (h : CommaList R as l) (hR : ∀ a t, R a t → t.kind ≠ .semicolon) :
    ∀ t ∈ l, t.kind ≠ .semicolon := by
  cases h with
  | nil => exact List.forall_mem_nil _
  | cons ha hmore => exact List.forall_mem_cons.mpr ⟨hR _ _ ha, hmore.kind_ne_semicolon hR⟩

theorem IntegerToken.kind_ne_semicolon (n : UInt32) (t : Token) (h : IntegerToken n t) :
    t.kind ≠ .semicolon := by
  rw [h.1]
  decide

theorem SizeToken.kind_ne_semicolon (item : SizeItem) (t : Token) (h : SizeToken item t) :
    t.kind ≠ .semicolon := by
  rw [h.kind_eq]
  cases item <;> simp [sizeTokenKind]

theorem Phrase.kind_ne_semicolon {symbols : SymbolTables} {resources : BindingTable}
    {type : ValueType} {v : Value} {l : List Token} (h : Phrase symbols resources type v l) :
    ∀ t ∈ l, t.kind ≠ .semicolon := by
  cases h with
  | integer ht => simpa using IntegerToken.kind_ne_semicolon _ _ ht
  | number hkind _ => rcases hkind with hkind | hkind <;> simp [hkind]
  | enumeration hkind _ | string hkind | yes hkind _ | no hkind _ => simp [hkind]
  | margins₁ hl | margins₂ hl | margins₄ hl =>
      exact hl.kind_ne_semicolon IntegerToken.kind_ne_semicolon
  | sizeList _ hl => exact hl.kind_ne_semicolon SizeToken.kind_ne_semicolon
  | resource hkind _ hopening hname hclosing _ => simp [hkind, hopening, hname, hclosing]

/-! ### Literals are phrases that are ended -/

theorem boolean?_eq_some_iff {word : String} {b : Bool} :
    boolean? word = some b ↔
      b = true ∧ (word = "true" ∨ word = "yes") ∨ b = false ∧ (word = "false" ∨ word = "no") := by
  unfold boolean?
  grind

/-- Margins are spelled out by the phrases with the counts that can be broadcast. -/
theorem phrase_of_broadcast {symbols : SymbolTables} {resources : BindingTable} {ns : List UInt32}
    {m : Margins} {l : List Token} (hl : CommaList IntegerToken ns l)
    (hm : Margins.broadcast? ns = some m) : Phrase symbols resources .margins (.margins m) l := by
  unfold Margins.broadcast? at hm
  split at hm
  · obtain rfl := Option.some.inj hm
    exact .margins₁ hl
  · obtain rfl := Option.some.inj hm
    exact .margins₂ hl
  · obtain rfl := Option.some.inj hm
    exact .margins₄ hl
  · cases hm

/-- A literal is spelled by a phrase and a semicolon. -/
theorem spelled_iff_phrase {symbols : SymbolTables} {resources : BindingTable} {type : ValueType}
    {v : Value} {l : List Token} :
    Spelled symbols resources type v l ↔
      ∃ front semi, l = front ++ [semi] ∧ semi.kind = .semicolon ∧
        Phrase symbols resources type v front := by
  constructor
  · intro h
    cases h with
    | integer ht hsemi => exact ⟨[_], _, rfl, hsemi, .integer ht⟩
    | number hkind hx hsemi => exact ⟨[_], _, rfl, hsemi, .number hkind hx⟩
    | enumeration hkind hentry hsemi => exact ⟨[_], _, rfl, hsemi, .enumeration hkind hentry⟩
    | string hkind hsemi => exact ⟨[_], _, rfl, hsemi, .string hkind⟩
    | boolean hkind hb hsemi =>
        refine ⟨[_], _, rfl, hsemi, ?_⟩
        obtain ⟨rfl, htext⟩ | ⟨rfl, htext⟩ := boolean?_eq_some_iff.mp hb
        · exact .yes hkind htext
        · exact .no hkind htext
    | margins ht hmore hm hsemi =>
        exact ⟨_, _, rfl, hsemi, phrase_of_broadcast (.cons ht hmore) hm⟩
    | sizeList ht hmore hsemi =>
        exact ⟨_, _, rfl, hsemi, .sizeList (List.cons_ne_nil _ _) (.cons ht hmore)⟩
    | resource hkind hword hopening hname hclosing hsemi hid =>
        exact ⟨[_, _, _, _], _, rfl, hsemi, .resource hkind hword hopening hname hclosing hid⟩
  · rintro ⟨front, semi, rfl, hsemi, h⟩
    cases h with
    | integer ht => exact .integer ht hsemi
    | number hkind hx => exact .number hkind hx hsemi
    | enumeration hkind hentry => exact .enumeration hkind hentry hsemi
    | string hkind => exact .string hkind hsemi
    | yes hkind htext =>
        exact .boolean hkind (boolean?_eq_some_iff.mpr (.inl ⟨rfl, htext⟩)) hsemi
    | no hkind htext =>
        exact .boolean hkind (boolean?_eq_some_iff.mpr (.inr ⟨rfl, htext⟩)) hsemi
    | margins₁ hl | margins₂ hl | margins₄ hl =>
        cases hl with
        | cons ht hmore => exact .margins ht hmore rfl hsemi
    | sizeList hne hl =>
        cases hl with
        | nil => exact absurd rfl hne
        | cons ht hmore => exact .sizeList ht hmore hsemi
    | resource hkind hword hopening hname hclosing hid =>
        exact .resource hkind hword hopening hname hclosing hsemi hid

/-! ### Wrong numbers of margins

A wrong count is found only where all tokens are of the right kinds.  Where it is reported depends
on how many values there are. -/

theorem broadcast?_eq_none {ns : List UInt32} (h : ns.length ∉ [1, 2, 4]) :
    Margins.broadcast? ns = none := by
  unfold Margins.broadcast?
  split
  · exact absurd (by simp) h
  · exact absurd (by simp) h
  · exact absurd (by simp) h
  · rfl

theorem broadcast_of_none {values : List UInt32} {t : Token} {run : Run (List Token)}
    (h : Margins.broadcast? values = none) :
    broadcast values t run = .error (.invalidValue t.position .marginCount) run := by
  unfold broadcast
  rw [h]
  rfl

/-- Up to `n` more values are read.  If these cannot be broadcast, or there are others behind them,
it is the count that is wrong: this is told at the token after them. -/
theorem moreMargins_of_more (n : Nat) (values : List UInt32) {ns : List UInt32} {l r : List Token}
    {semi : Token} {run : Run (List Token)} (hmore : More IntegerToken ns l)
    (hsemi : semi.kind = .semicolon) (hsink : run.sink.capacity = none)
    (hsource : run.source = l ++ semi :: r)
    (hnone : ns.length ≤ n → Margins.broadcast? (values ++ ns) = none) :
    ∃ t run', (l ++ [semi])[min l.length (2 * n)]? = some t ∧
      moreMargins values n run = .error (.invalidValue t.position .marginCount) run' := by
  induction n generalizing values ns l run with
  | zero =>
      cases hmore with
      | nil =>
          obtain ⟨run', hrun, -⟩ := (does_accept .semicolon).ok_of_append ⟨hsemi, rfl⟩ hsink hsource
          refine ⟨semi, run', rfl, ?_⟩
          unfold moreMargins
          rw [bind_of_ok (peek_of_cons hsource)]
          show (if semi.kind = .comma then _ else _ : Compile (List Token) Margins) run = _
          rw [if_neg (by rw [hsemi]; decide), bind_of_ok hrun]
          rw [List.append_nil] at hnone
          exact broadcast_of_none (hnone (Nat.le_refl 0))
      | @cons _ _ comma t l hcomma _ _ =>
          refine ⟨comma, run, by simp, ?_⟩
          unfold moreMargins
          rw [bind_of_ok (peek_of_cons hsource)]
          show (if comma.kind = .comma then _ else _ : Compile (List Token) Margins) run = _
          rw [if_pos hcomma]
          rfl
  | succ n ih =>
      cases hmore with
      | nil =>
          obtain ⟨run', hrun, -⟩ := does_expect.ok_of_append rfl hsink hsource
          refine ⟨semi, run', by simp, ?_⟩
          unfold moreMargins
          rw [bind_of_ok hrun, if_pos hsemi]
          rw [List.append_nil] at hnone
          exact broadcast_of_none (hnone (Nat.zero_le _))
      | @cons a as comma t l hcomma ha hrest =>
          obtain ⟨run₁, hrun₁, hsource₁, hsink₁⟩ := does_expect.ok_of_append rfl hsink hsource
          obtain ⟨run₂, hrun₂, hsource₂, hsink₂⟩ :=
            does_integer.ok_of_append ⟨t, ha, rfl⟩ hsink₁ hsource₁
          obtain ⟨t', run', ht', hrun'⟩ := ih (values ++ [a]) hrest hsink₂ hsource₂
            (fun hle => by simpa using hnone (Nat.succ_le_succ hle))
          refine ⟨t', run', ?_, ?_⟩
          · rw [← ht']
            have hindex : min (l.length + 2) (2 * (n + 1)) = min l.length (2 * n) + 2 := by omega
            simp [hindex]
          · unfold moreMargins
            rw [bind_of_ok hrun₁, if_neg (by rw [hcomma]; decide), if_pos hcomma, bind_of_ok hrun₂]
            exact hrun'

/-- Any number of values but one, two or four is refused for its count.  Eight tokens decide: the
count is told at the semicolon, or at the comma after the fourth value. -/
theorem margins_of_commaList {ns : List UInt32} {l r : List Token} {semi : Token}
    {run : Run (List Token)} (hl : CommaList IntegerToken ns l) (hsemi : semi.kind = .semicolon)
    (hsink : run.sink.capacity = none) (hsource : run.source = l ++ semi :: r)
    (hlength : ns.length ∉ [1, 2, 4]) :
    ∃ t run', (l ++ [semi])[min l.length 7]? = some t ∧
      margins run = .error (.invalidValue t.position .marginCount) run' := by
  cases hl with
  | nil =>
      refine ⟨semi, run, rfl, ?_⟩
      unfold margins
      rw [bind_of_ok (peek_of_cons hsource)]
      show (if semi.kind = .semicolon then _ else _ : Compile (List Token) Margins) run = _
      rw [if_pos hsemi]
      rfl
  | @cons a as t l ha hmore =>
      obtain ⟨run₁, hrun₁, hsource₁, hsink₁⟩ := does_integer.ok_of_append ⟨t, ha, rfl⟩ hsink hsource
      obtain ⟨t', run', ht', hrun'⟩ := moreMargins_of_more 3 [a] hmore hsemi hsink₁ hsource₁
        (fun _ => broadcast?_eq_none hlength)
      refine ⟨t', run', ?_, ?_⟩
      · rw [← ht']
        have hindex : min (l.length + 1) 7 = min l.length (2 * 3) + 1 := by omega
        simp [hindex]
      · unfold margins
        rw [bind_of_ok (peek_of_cons hsource)]
        show (if t.kind = .semicolon then _ else _ : Compile (List Token) Margins) run = _
        rw [if_neg (IntegerToken.kind_ne_semicolon a t ha), bind_of_ok hrun₁]
        exact hrun'

/-! ### Reading -/

/-- Reading a literal of a type succeeds exactly where a phrase of the type, none of whose tokens is
a semicolon, stands before a semicolon.  It gives the value of the phrase and leaves what follows
the semicolon.

Integers with commas between them that are not one, two or four are no margins because of their
count. -/
theorem parse_eq_ok_iff_phrase (symbols : SymbolTables) (resources : BindingTable) :
    (∀ type tokens v r,
      (∃ run, parse symbols resources type (.start tokens .unbounded) = .ok v run ∧
        run.source = r) ↔
        ∃ l semi, tokens = l ++ [semi] ++ r ∧ semi.kind = .semicolon ∧
          (∀ t ∈ l, t.kind ≠ .semicolon) ∧ Phrase symbols resources type v l) ∧
    ∀ ns l semi r, CommaList IntegerToken ns l → semi.kind = .semicolon → ns.length ∉ [1, 2, 4] →
      ∃ t run, (l ++ [semi])[min l.length 7]? = some t ∧
        parse symbols resources .margins (.start (l ++ [semi] ++ r) .unbounded) =
          .error (.invalidValue t.position .marginCount) run := by
  constructor
  · intro type tokens v r
    have hparse := does_parse (σ := List Token) symbols resources type
    constructor
    · rintro ⟨run, hrun, rfl⟩
      obtain ⟨_, hl, htokens⟩ := hparse.append_of_ok rfl hrun
      obtain ⟨l, semi, rfl, hsemi, hphrase⟩ := spelled_iff_phrase.mp hl
      exact ⟨l, semi, htokens, hsemi, hphrase.kind_ne_semicolon, hphrase⟩
    · rintro ⟨l, semi, htokens, hsemi, -, hphrase⟩
      have hspelled := spelled_iff_phrase.mpr ⟨l, semi, rfl, hsemi, hphrase⟩
      have hsink : (Run.start tokens .unbounded).sink.capacity = none := rfl
      obtain ⟨run, hrun, hsource, -⟩ := hparse.ok_of_append ⟨_, hspelled, rfl⟩ hsink htokens
      exact ⟨run, hrun, hsource⟩
  · intro ns l semi r hl hsemi hlength
    have hsink : (Run.start (l ++ [semi] ++ r) .unbounded).sink.capacity = none := rfl
    obtain ⟨t, run, ht, hrun⟩ := margins_of_commaList hl hsemi hsink (List.append_assoc l [semi] r)
      hlength
    refine ⟨t, run, ht, ?_⟩
    show (Value.margins <$> margins) _ = _
    rw [map_eq_pure_bind]
    exact bind_of_error hrun

/-- Of five margins the fourth comma is one too many. -/
theorem parse_eq_ok_iff_phrase_five :
    let one : Token := ⟨.integer, "1", ⟨1, 1⟩⟩
    let comma : Token := ⟨.comma, ",", ⟨1, 2⟩⟩
    let last : Token := ⟨.comma, ",", ⟨1, 8⟩⟩
    let semi : Token := ⟨.semicolon, ";", ⟨1, 10⟩⟩
    ∃ run, parse (Schema.index ⟨[], [], []⟩) .empty .margins
      (.start [one, comma, one, comma, one, comma, one, last, one, semi] .unbounded) =
        .error (.invalidValue ⟨1, 8⟩ .marginCount) run := by
  intro one comma last semi
  have hone : IntegerToken 1 one := ⟨rfl, by cbv⟩
  have hl : CommaList IntegerToken [1, 1, 1, 1, 1]
      [one, comma, one, comma, one, comma, one, last, one] :=
    .cons hone (.cons rfl hone (.cons rfl hone (.cons rfl hone (.cons rfl hone .nil))))
  obtain ⟨t, run, ht, hrun⟩ :=
    (parse_eq_ok_iff_phrase (Schema.index ⟨[], [], []⟩) .empty).2 _ _ semi [] hl rfl (by decide)
  obtain rfl : last = t := Option.some.inj ht
  exact ⟨run, hrun⟩

end WidgetLayout.Literal
