/-
Number literals are accepted by their range, and by nothing else.

`Literal.Awaits` and `Document.UpToColon` say where an integer is expected: behind the tokens of a
document up to the colon of a property, and behind the beginning of its literal.  Compiling these
tokens and an integer after them leads to reading that integer, and to what is done with its number:
that is `Asks`, which is built up from the integer itself outwards to the whole document.  From
there both outcomes are plain.  An integer out of range ends the compilation.  One in range is
behind the compiler for good: what goes on has only the tokens after it to complain about.
-/
import WidgetLayout.Proofs.Numerals

namespace WidgetLayout

open WidgetLayout.Progress

namespace Compile

variable {σ : Type} [TokenSource σ] {α β : Type} {m k n : Compile σ α}
  {q q' : List Token} {t : Token}

/-! ### Going on behind some tokens

Once an action has taken some tokens it is as good as the action that is left of it.  So a
document can be followed to a place in its middle. -/

/-- Behind the tokens `q`, which it takes, the action goes on as `k`. -/
def LeadsTo (m : Compile σ α) (q : List Token) (k : Compile σ α) : Prop :=
  ∀ run rest, run.sink.capacity = none → TokenSource.takeAll run.source = q ++ rest →
    ∃ run', m run = k run' ∧ run'.sink.capacity = none ∧ TokenSource.takeAll run'.source = rest

theorem LeadsTo.trans (h : LeadsTo m q n) (h' : LeadsTo n q' k) : LeadsTo m (q ++ q') k := by
  intro run rest hsink htokens
  rw [List.append_assoc] at htokens
  obtain ⟨run', hrun, hsink', htokens'⟩ := h run (q' ++ rest) hsink htokens
  obtain ⟨run'', hrun', hsink'', htokens''⟩ := h' run' rest hsink' htokens'
  exact ⟨run'', hrun.trans hrun', hsink'', htokens''⟩

theorem LeadsTo.bind (h : LeadsTo m q k) (f : α → Compile σ β) : LeadsTo (m >>= f) q (k >>= f) := by
  intro run rest hsink htokens
  obtain ⟨run', hrun, hsink', htokens'⟩ := h run rest hsink htokens
  refine ⟨run', ?_, hsink', htokens'⟩
  cases hk : k run' with
  | ok a run'' => rw [bind_of_ok (hrun.trans hk), bind_of_ok hk]
  | error e run'' => rw [bind_of_error (hrun.trans hk), bind_of_error hk]

/-- An action that succeeds on some tokens leads to what follows it. -/
theorem leadsTo_bind {F : α → Effect → Prop} (hm : Does m F) {a : α} {e : Effect} (hF : F a e)
    (f : α → Compile σ β) : LeadsTo (m >>= f) e.tokens (f a) := by
  intro run rest hsink htokens
  obtain ⟨run', hrun, hview⟩ := hm.complete hsink hF
    (z := ⟨rest, run.sink.bytes.toList ++ e.bytes, run.stats.join e.stats⟩) ⟨htokens, rfl, rfl⟩
  exact ⟨run', bind_of_ok hrun, hm.valid hsink hrun, congrArg Effect.tokens hview⟩

/-- Looking ahead shows the first of the tokens and takes none. -/
theorem leadsTo_peek [LawfulTokenSource σ] {f : Option Token → Compile σ β} {k : Compile σ β}
    (h : LeadsTo (f (some t)) (t :: q) k) : LeadsTo (peek >>= f) (t :: q) k := by
  intro run rest hsink htokens
  have hpeek :
      (peek >>= f) run = f (some t) { run with source := (TokenSource.peek run.source).2 } := by
    have hhead : (TokenSource.peek run.source).1 = some t := by
      rw [peek_eq_head?, htokens]
      rfl
    rw [← hhead]
    rfl
  rw [hpeek]
  exact h _ rest hsink ((takeAll_peek run.source).trans htokens)

theorem leadsTo_iterate {step : β → Compile σ (β ⊕ α)} {hstep : ∀ b, Advances (step b)}
    {F : β → β ⊕ α → Effect → Prop} (h : ∀ b, Does (step b) (F b)) {b b' : β} {e : Effect}
    (hchain : Chain (tape σ) F b e b') :
    LeadsTo (iterate step hstep b) e.tokens (iterate step hstep b') := by
  intro run rest hsink htokens
  obtain ⟨run', hrun, hsink', hview⟩ :
    ∃ run', iterateOn step hstep b run = iterateOn step hstep b' run' ∧
      (tape σ).Valid run' ∧ (tape σ).view run' = _ := iterateOn_of_chain h hchain hsink
    (z := ⟨rest, run.sink.bytes.toList ++ e.bytes, run.stats.join e.stats⟩) ⟨htokens, rfl, rfl⟩
  exact ⟨run', hrun, hsink', congrArg Effect.tokens hview⟩

/-! ### Asking for an integer

What is left of a document begins with the reading of an integer here, so the token at this place
alone decides whether that fails. -/

/-- Behind `q` the action takes the token `t`, reads the integer that it stands for and goes on with
its number, and from then on it is only concerned with what it sees next. -/
def Asks (m : Compile σ α) (q : List Token) (t : Token) : Prop :=
  ∃ f : UInt32 → Compile σ α, (∀ n (O : Outlook σ), O.Accounts (f n)) ∧
    LeadsTo m (q ++ [t]) (Literal.integerOf t >>= f)

theorem Asks.bind (h : Asks m q t) {g : α → Compile σ β}
    (hg : ∀ a (O : Outlook σ), O.Accounts (g a)) : Asks (m >>= g) q t := by
  obtain ⟨f, hf, hleads⟩ := h
  refine ⟨fun n => f n >>= g, fun n O => (hf n O).bind fun a _ => hg a O, ?_⟩
  have hbind := hleads.bind g
  rwa [bind_assoc] at hbind

theorem Asks.map (h : Asks m q t) (g : α → β) : Asks (g <$> m) q t :=
  h.bind fun _ _ => Outlook.accounts_pure trivial

/-- What leads to the question takes its own tokens. -/
theorem LeadsTo.asks (hm : LeadsTo m q n) (h : Asks n q' t) : Asks m (q ++ q') t := by
  obtain ⟨f, hf, hleads⟩ := h
  refine ⟨f, hf, ?_⟩
  rw [List.append_assoc]
  exact hm.trans hleads

theorem Asks.behind {F : α → Effect → Prop} (hm : Does m F) {a : α} {e : Effect} (hF : F a e)
    {g : α → Compile σ β} (h : Asks (g a) q t) : Asks (m >>= g) (e.tokens ++ q) t :=
  (leadsTo_bind hm hF g).asks h

theorem Asks.iterate {step : β → Compile σ (β ⊕ α)} {hstep : ∀ b, Advances (step b)}
    {F : β → β ⊕ α → Effect → Prop} (hdoes : ∀ b, Does (step b) (F b))
    (haccounts : ∀ b (O : Outlook σ), O.Accounts (step b)) {b b' : β} {e : Effect}
    (hchain : Chain (tape σ) F b e b') (h : Asks (step b') q t) :
    Asks (iterate step hstep b) (e.tokens ++ q) t := by
  have hround : Asks (Progress.iterate step hstep b') q t := by
    rw [iterate_eq_bind]
    refine h.bind fun r O => ?_
    cases r with
    | inl b'' => exact Outlook.accounts_iterate (fun b => haccounts b O) b''
    | inr a => exact Outlook.accounts_pure trivial
  exact (leadsTo_iterate hdoes hchain).asks hround

theorem Asks.peek [LawfulTokenSource σ] {f : Option Token → Compile σ β} {t' : Token}
    {rest : List Token} (hfront : q ++ [t] = t' :: rest) (h : Asks (f (some t')) q t) :
    Asks (Compile.peek >>= f) q t := by
  obtain ⟨g, hg, hleads⟩ := h
  refine ⟨g, hg, ?_⟩
  rw [hfront] at hleads ⊢
  exact leadsTo_peek hleads

end Compile

/-! ### Literals that await an integer

An integer can be a whole literal, one of several margins or an item of a size list. -/

namespace Literal

open WidgetLayout.Compile WidgetLayout.Outlook

/-- Tokens for some items, each with a comma behind it. -/
inductive Before {α : Type} (R : α → Token → Prop) : List α → List Token → Prop
  | first : Before R [] []
  | later {a : α} {as : List α} {t comma : Token} {l : List Token} (ha : R a t)
      (hmore : More R as l) (hcomma : comma.kind = .comma) : Before R (a :: as) (t :: l ++ [comma])

/-- The beginnings of literals of a type behind which an integer is expected, with the place that it
has in the value. -/
inductive Awaits : ValueType → Nat → List Token → Prop
  | integer : Awaits .integer 0 []
  | margins {ns : List UInt32} {l : List Token} (h : Before IntegerToken ns l)
      (hlength : ns.length < 4) :
      Awaits .margins ns.length l
  | pixels {items : List SizeItem} {l : List Token} (h : Before SizeToken items l) :
      Awaits .sizeList items.length l

variable {σ : Type} [TokenSource σ] {t : Token} (ht : t.kind = .integer)

include ht

/-- Neither an integer nor an item of a size list is taken for a binding. -/
theorem Awaits.front {type : ValueType} {i : Nat} {l : List Token} (h : Awaits type i l) :
    ∃ t' rest, l ++ [t] = t' :: rest ∧ t'.isWord "bind" = false := by
  have hinteger : ∀ {t : Token}, t.kind = .integer → t.isWord "bind" = false := by
    intro t hkind
    simp [Token.isWord, hkind]
  have hitem : ∀ {item : SizeItem} {t : Token}, SizeToken item t → t.isWord "bind" = false := by
    intro item t hitem
    cases hitem with
    | auto _ htext | expand _ htext => simp [Token.isWord, htext]
    | pixels hn => exact hinteger hn.1
    | percentage hkind _ => simp [Token.isWord, hkind]
  cases h with
  | integer => exact ⟨t, [], rfl, hinteger ht⟩
  | margins h _ =>
      cases h with
      | first => exact ⟨t, [], rfl, hinteger ht⟩
      | later hn _ _ => exact ⟨_, _, rfl, hinteger hn.1⟩
  | pixels h =>
      cases h with
      | first => exact ⟨t, [], rfl, hinteger ht⟩
      | later hsize _ _ => exact ⟨_, _, rfl, hitem hsize⟩

theorem asks_integer : Asks (integer : Compile σ UInt32) [] t := by
  refine ⟨pure, fun n O => Outlook.accounts_pure trivial, ?_⟩
  rw [bind_pure]
  exact leadsTo_bind (does_accept .integer) ⟨ht, rfl⟩ integerOf

theorem asks_sizeItem : Asks (sizeItem : Compile σ SizeItem) [] t := by
  refine ⟨fun n => pure (.pixels n), fun n O => Outlook.accounts_pure trivial, ?_⟩
  have hleads : LeadsTo (sizeItem : Compile σ SizeItem) [t] _ := leadsTo_bind does_expect rfl _
  rw [ht] at hleads
  exact hleads

variable {comma : Token} (hcomma : comma.kind = .comma)

include hcomma

/-- Up to three values follow the first, each behind its comma. -/
theorem asks_moreMargins {ns : List UInt32} {l : List Token} (hmore : More IntegerToken ns l) :
    ∀ values k, ns.length < k →
      Asks (moreMargins values k : Compile σ Margins) (l ++ [comma]) t := by
  induction hmore with
  | nil =>
      intro values k hk
      obtain ⟨k, rfl⟩ := Nat.exists_eq_succ_of_ne_zero (Nat.ne_of_gt hk)
      refine Asks.behind does_expect (a := comma) rfl ?_
      rw [if_neg (by rw [hcomma]; decide), if_pos hcomma]
      exact (asks_integer ht).bind fun v O => accounts_moreMargins k _
  | @cons n ns comma' t' l hcomma' hn _ ih =>
      intro values k hk
      obtain ⟨k, rfl⟩ := Nat.exists_eq_succ_of_ne_zero (Nat.ne_of_gt (Nat.zero_lt_of_lt hk))
      refine Asks.behind does_expect (a := comma') rfl ?_
      rw [if_neg (by rw [hcomma']; decide), if_pos hcomma']
      exact Asks.behind does_integer ⟨t', hn, rfl⟩ (ih _ k (Nat.lt_of_succ_lt_succ hk))

theorem asks_sizeStep (items : Array SizeItem) :
    Asks (sizeStep items : Compile σ (Array SizeItem ⊕ List SizeItem)) [comma] t := by
  refine Asks.behind does_expect (a := comma) rfl ?_
  rw [if_neg (by rw [hcomma]; decide), if_pos hcomma]
  exact (asks_sizeItem ht).map _

omit hcomma

theorem asks_margins [LawfulTokenSource σ] {ns : List UInt32} {l : List Token}
    (h : Before IntegerToken ns l) (hlength : ns.length < 4) :
    Asks (margins : Compile σ Margins) l t := by
  cases h with
  | first =>
      refine Asks.peek rfl ?_
      dsimp only
      rw [if_neg (by rw [ht]; decide)]
      exact (asks_integer ht).bind fun v O => accounts_moreMargins 3 _
  | @later n ns t' comma l hn hmore hcomma =>
      refine Asks.peek rfl ?_
      dsimp only
      rw [if_neg (by rw [hn.1]; decide)]
      exact Asks.behind does_integer ⟨t', hn, rfl⟩
        (asks_moreMargins ht hcomma hmore [n] 3 (Nat.lt_of_succ_lt_succ hlength))

theorem asks_sizeList {items : List SizeItem} {l : List Token} (h : Before SizeToken items l) :
    Asks (sizeList : Compile σ (List SizeItem)) l t := by
  cases h with
  | first => exact (asks_sizeItem ht).bind fun item O => accounts_iterate accounts_sizeStep _
  | @later item items t' comma l hitem hmore hcomma =>
      have hchain : Chain (tape σ) SizeStep #[item] (.take l) (#[item] ++ items) :=
        chain_sizeStep_iff.mpr ⟨items, l, hmore, rfl, rfl⟩
      exact Asks.behind does_sizeItem ⟨t', hitem, rfl⟩
        (Asks.iterate does_sizeStep (fun _ _ => accounts_sizeStep _) hchain
          (asks_sizeStep ht hcomma _))

theorem asks_parse [LawfulTokenSource σ] (symbols : SymbolTables) (resources : BindingTable)
    {type : ValueType} {i : Nat} {l : List Token} (h : Awaits type i l) :
    Asks (parse symbols resources type : Compile σ Value) l t := by
  cases h with
  | integer =>
      exact ((asks_integer ht).bind fun _ _ => (accounts_accept _).bind fun _ _ =>
        accounts_pure trivial).map _
  | margins h hlength => exact (asks_margins ht h hlength).map _
  | pixels h => exact (asks_sizeList ht h).map _

theorem asks_encode [LawfulTokenSource σ] (symbols : SymbolTables) (resources : BindingTable)
    {type : ValueType} {i : Nat} {l : List Token} (h : Awaits type i l) :
    Asks (encode symbols resources type : Compile σ Value) l t :=
  (asks_parse ht symbols resources h).bind fun _ _ =>
    Accounts.bind (.ite (fun _ => accounts_write _) fun _ => accounts_throw (.output _)) fun _ _ =>
      accounts_pure trivial

end Literal

/-! ### Values of literals

That the number is used can be seen in the value of every literal that goes on behind the integer.
-/

/-- The integer at a place of a value: of margins the values in their order, of a size list the
items that are pixels. -/
def Value.integerAt : Value → Nat → Option UInt32
  | .integer n, 0 => some n
  | .margins m, i => m.toList[i]?
  | .sizeList items, i =>
    match items[i]? with
    | some (.pixels n) => some n
    | _ => none
  | _, _ => none

theorem Margins.getElem?_of_broadcast {values : List UInt32} {m : Margins}
    (h : broadcast? values = some m) {i : Nat} {n : UInt32} (hn : values[i]? = some n) :
    m.toList[i]? = some n := by
  unfold broadcast? at h
  split at h
  · obtain rfl := Option.some.inj h
    obtain ⟨hi, hn⟩ := List.getElem?_eq_some_iff.mp hn
    obtain rfl : i = 0 := Nat.lt_one_iff.mp hi
    rw [← hn]
    rfl
  · obtain rfl := Option.some.inj h
    obtain ⟨hi, hn⟩ := List.getElem?_eq_some_iff.mp hn
    rw [← hn]
    match i, hi with
    | 0, _ => rfl
    | 1, _ => rfl
  · obtain rfl := Option.some.inj h
    exact hn
  · cases h

namespace Literal

variable {α : Type} {R : α → Token → Prop} {t semi : Token}

/-- More items that go on beyond a comma have one for the token after it. -/
theorem More.getElem? {as bs : List α} {l l' rest rest' : List Token} {comma : Token}
    (h : More R as l) (hsemi : semi.kind = .semicolon) (h' : More R bs l')
    (hcomma : comma.kind = .comma) (heq : l ++ semi :: rest = l' ++ comma :: t :: rest') :
    ∃ a, as[bs.length]? = some a ∧ R a t := by
  induction h' generalizing as l with
  | nil =>
      cases h with
      | nil =>
          obtain ⟨rfl, -⟩ := List.cons.inj heq
          rw [hsemi] at hcomma
          cases hcomma
      | cons _ ha _ =>
          obtain ⟨rfl, rfl, -⟩ := by simpa using heq
          exact ⟨_, rfl, ha⟩
  | cons hcomma' _ _ ih =>
      cases h with
      | nil =>
          obtain ⟨rfl, -⟩ := List.cons.inj heq
          rw [hsemi] at hcomma'
          cases hcomma'
      | cons _ _ hmore =>
          obtain ⟨-, -, htail⟩ := by simpa using heq
          exact ih hmore htail

/-- A list of items that begins with some of them, a comma each behind them, has an item for the
token after that. -/
theorem Before.getElem? {a : α} {as bs : List α} {l l' rest rest' : List Token} {t' : Token}
    (h : Before R bs l') (ha : R a t') (hmore : More R as l) (hsemi : semi.kind = .semicolon)
    (heq : t' :: l ++ [semi] ++ rest = l' ++ t :: rest') :
    ∃ a', (a :: as)[bs.length]? = some a' ∧ R a' t := by
  cases h with
  | first =>
      obtain ⟨rfl, -⟩ := List.cons.inj heq
      exact ⟨a, rfl, ha⟩
  | later _ hmore' hcomma =>
      obtain ⟨-, htail⟩ := List.cons.inj heq
      exact hmore.getElem? hsemi hmore' hcomma (by simpa using htail)

/-- In a literal that goes on beyond an integer, the integer has its place. -/
theorem Awaits.integerAt {symbols : SymbolTables} {resources : BindingTable}
    {type : ValueType} {i : Nat} {l l' rest rest' : List Token} {v : Value} (h : Awaits type i l)
    (ht : t.kind = .integer) (hspelled : Spelled symbols resources type v l')
    (heq : l' ++ rest = l ++ t :: rest') : ∃ n, IntegerToken n t ∧ v.integerAt i = some n := by
  cases h with
  | integer =>
      cases hspelled with
      | integer hn _ =>
          obtain ⟨rfl, -⟩ := List.cons.inj heq
          exact ⟨_, hn, rfl⟩
  | margins h _ =>
      cases hspelled with
      | margins hn hmore hm hsemi =>
          obtain ⟨n, hget, hn'⟩ := h.getElem? hn hmore hsemi heq
          exact ⟨n, hn', Margins.getElem?_of_broadcast hm hget⟩
  | pixels h =>
      cases hspelled with
      | sizeList hitem hmore hsemi =>
          obtain ⟨item, hget, hitem'⟩ := h.getElem? hitem hmore hsemi heq
          have hkind := ht.symm.trans hitem'.kind_eq
          cases hitem' with
          | pixels hn => exact ⟨_, hn, by simp only [Value.integerAt, hget]⟩
          | auto | expand | percentage => cases hkind

theorem More.append {as bs : List α} {l l' : List Token} (h : More R as l) (h' : More R bs l') :
    More R (as ++ bs) (l ++ l') := by
  induction h with
  | nil => exact h'
  | cons hcomma ha _ ih => exact .cons hcomma ha ih

/-- The same item some times over. -/
theorem exists_more {a : α} (ha : R a t) (k : Nat) : ∃ l, More R (List.replicate k a) l := by
  induction k with
  | zero => exact ⟨[], .nil⟩
  | succ k ih =>
      obtain ⟨l, hl⟩ := ih
      exact ⟨⟨.comma, ",", t.position⟩ :: t :: l, .cons rfl ha hl⟩

/-- With the item that was awaited, a list of items has begun that can go on. -/
theorem Before.append {a : α} {as bs : List α} {l l' : List Token} (h : Before R as l) (ha : R a t)
    (hmore : More R bs l') : ∃ a' as' t' l'', a' :: as' = as ++ a :: bs ∧ R a' t' ∧ More R as' l'' ∧
      t' :: l'' = l ++ t :: l' := by
  cases h with
  | first => exact ⟨a, bs, t, l', rfl, ha, hmore, rfl⟩
  | later ha' hmore' hcomma =>
      exact ⟨_, _, _, _, rfl, ha', hmore'.append (.cons hcomma ha hmore), by simp⟩

/-- Four values stand for margins. -/
theorem exists_broadcast {values : List UInt32} (h : values.length = 4) :
    ∃ m, Margins.broadcast? values = some m := by
  match values, h with
  | [a, b, c, d], _ => exact ⟨⟨a, b, c, d⟩, rfl⟩

/-- Behind an integer where one is awaited, a literal can be completed. -/
theorem Awaits.exists_spelled (symbols : SymbolTables) (resources : BindingTable)
    {type : ValueType} {i : Nat} {l : List Token} (h : Awaits type i l) {n : UInt32}
    (ht : IntegerToken n t) : ∃ v l', Spelled symbols resources type v (l ++ t :: l') := by
  have hsemi : (⟨.semicolon, ";", t.position⟩ : Token).kind = .semicolon := rfl
  cases h with
  | integer => exact ⟨_, _, .integer ht hsemi⟩
  | @margins ns l h hlength =>
      obtain ⟨l', hl'⟩ := exists_more ht (3 - ns.length)
      obtain ⟨n', ns', t', l'', hvalues, hn', hmore, htokens⟩ := h.append ht hl'
      obtain ⟨m, hm⟩ : ∃ m, Margins.broadcast? (n' :: ns') = some m := by
        refine exists_broadcast ?_
        rw [hvalues, List.length_append, List.length_cons, List.length_replicate]
        omega
      have hspelled : Spelled symbols resources .margins _ _ := .margins hn' hmore hm hsemi
      rw [htokens, List.append_assoc, List.cons_append] at hspelled
      exact ⟨_, _, hspelled⟩
  | pixels h =>
      obtain ⟨item, items, t', l', -, hitem, hmore, htokens⟩ := h.append (.pixels ht) .nil
      have hspelled : Spelled symbols resources .sizeList _ _ := .sizeList hitem hmore hsemi
      rw [htokens, List.append_assoc, List.cons_append] at hspelled
      exact ⟨_, _, hspelled⟩

/-- Behind the beginning `l` of a literal the token `t` is read as `n`: the literal can be
completed, and however it is, its value has `n` in that place. -/
def ReadAs (context : Context) (type : ValueType) (i : Nat) (l : List Token) (t : Token)
    (n : UInt32) : Prop :=
  let read := fun rest : List Token =>
    parse context.symbols context.bindings.resources type (.start (l ++ t :: rest) .unbounded)
  (∃ rest v run, read rest = .ok v run) ∧ ∀ rest v run, read rest = .ok v run →
    v.integerAt i = some n

theorem Awaits.readAs (context : Context) {type : ValueType} {i : Nat} {l : List Token}
    (h : Awaits type i l) {n : UInt32} (ht : IntegerToken n t) : ReadAs context type i l t n := by
  have hparse := does_parse (σ := List Token) context.symbols context.bindings.resources type
  refine ⟨?_, ?_⟩
  · obtain ⟨v, rest, hspelled⟩ := h.exists_spelled context.symbols context.bindings.resources ht
    obtain ⟨run, hrun, -⟩ := spelled_iff_parse.mp hspelled
    exact ⟨rest, v, run, hrun⟩
  · intro rest v run hrun
    obtain ⟨l', hl', htokens⟩ := hparse.append_of_ok rfl hrun
    obtain ⟨n', hn', hplace⟩ := h.integerAt ht.1 hl' htokens.symm
    have hsame := ht.2.symm.trans hn'.2
    obtain rfl := Except.ok.inj hsame
    exact hplace

end Literal

/-! ### Documents up to a literal -/

namespace Document

open WidgetLayout.Compile WidgetLayout.Outlook

/-- The tokens of a document up to the colon of a property: its root, items that leave the
properties of the innermost widget open, and the name of the property. -/
inductive UpToColon (context : Context) (entry : PropertyEntry) : List Token → Prop
  | mk {root : WidgetEntry} {word opening name colon : Token} {items : Effect}
      {outer : List Section} (hdepth : 1 ≤ context.maxDepth) (hword : word.kind = .identifier)
      (hroot : context.symbols.widget? word.text = some root) (hopening : opening.kind = .openBrace)
      (hitems : Chain (tape Lexer) (Body context) (.properties, []) items (.properties, outer))
      (hname : name.kind = .identifier) (hentry : context.symbols.property? name.text = some entry)
      (hcolon : colon.kind = .colon) :
      UpToColon context entry (word :: opening :: (items.tokens ++ [name, colon]))

variable {σ : Type} [TokenSource σ] [LawfulTokenSource σ] (context : Context) {t : Token}
  (ht : t.kind = .integer)

include ht

theorem asks_property {entry : PropertyEntry} {i : Nat} {l : List Token}
    (h : Literal.Awaits entry.type i l) (name : Token) {colon : Token}
    (hcolon : colon.kind = .colon) :
    Asks (property context entry name : Compile σ Unit) (colon :: l) t := by
  have hliteral : Asks (literal context entry name : Compile σ Unit) l t :=
    Asks.behind (does_write _) (a := ()) rfl ((Literal.asks_encode ht _ _ h).bind fun _ _ =>
      (accounts_record _).bind fun _ _ => accounts_tally _)
  obtain ⟨t', rest, hfront, hbind⟩ := h.front ht
  refine Asks.behind (does_accept .colon) (a := colon) ⟨hcolon, rfl⟩ (Asks.peek hfront ?_)
  rw [if_neg (by simp [hbind])]
  exact hliteral

theorem asks_bodyStep {entry : PropertyEntry} {i : Nat} {l : List Token}
    (h : Literal.Awaits entry.type i l) {name colon : Token} (hname : name.kind = .identifier)
    (hentry : context.symbols.property? name.text = some entry) (hcolon : colon.kind = .colon)
    (outer : List Section) :
    Asks (bodyStep context (.properties, outer) : Compile σ _) (name :: colon :: l) t := by
  refine Asks.map (Asks.behind does_expect (a := name) rfl ?_) _
  rw [hname]
  dsimp only
  rw [hentry]
  exact (asks_property context ht h name hcolon).bind fun _ _ => accounts_pure trivial

/-- **Behind a document up to an integer the compiler asks for that integer.** -/
theorem asks_compile {entry : PropertyEntry} {i : Nat} {opening l : List Token}
    (hopening : UpToColon context entry opening) (h : Literal.Awaits entry.type i l) :
    Asks (compile context : Compile Lexer Unit) (opening ++ l) t := by
  obtain @⟨root, word, brace, name, colon, items, outer, hdepth, hword, hroot, hbrace, hitems,
    hname, hentry, hcolon⟩ := hopening
  have htokens : word :: brace :: (items.tokens ++ [name, colon]) ++ l =
      [word] ++ ([brace] ++ (items.tokens ++ name :: colon :: l)) := by simp
  rw [htokens]
  refine Asks.behind (does_accept .identifier) (a := word) ⟨hword, rfl⟩ ?_
  refine Asks.behind (does_openWidget context 1 word) (a := ())
    ⟨hdepth, brace, root, hbrace, hroot, rfl⟩ ?_
  have hbody : Asks (iterate (bodyStep context) (fun b => (shrinks_bodyStep context b).advances)
      (.properties, [])) (items.tokens ++ name :: colon :: l) t :=
    Asks.iterate (does_bodyStep context)
      (fun b _ => (accounts_bodyItem context b.1 b.2).map fun _ _ => trivial)
      hitems (asks_bodyStep context ht h hname hentry hcolon outer)
  refine hbody.bind fun _ O => accounts_peek.bind fun front hfront => ?_
  cases front with
  | none => exact accounts_pure trivial
  | some t => exact accounts_throw_at (hfront t rfl) (.unexpectedToken _)

end Document

/-! ### Sources -/

/-- What is known of a source by the tokens that it has left: no others can come. -/
def Outlook.ahead (σ : Type) [TokenSource σ] [LawfulTokenSource σ] (ts : List Token) :
    Outlook σ where
  Sources s := TokenSource.takeAll s <:+ ts
  Tokens t := t ∈ ts
  Ends _ := True
  peek {s} h := by
    refine ⟨fun t ht => h.subset (List.mem_of_mem_head? ?_), ?_⟩
    · rwa [← peek_eq_head?]
    · rwa [takeAll_peek]
  take {s} h := by
    refine ⟨fun t ht => h.subset (List.mem_of_mem_head? ?_), ?_⟩
    · rwa [← TokenSource.take_fst]
    · rw [takeAll_take]
      exact (List.tail_suffix _).trans h
  finish _ _ := trivial

/-- An error that is about one of these tokens, or about none at all. -/
def Error.Beyond (ts : List Token) (e : Error) : Prop :=
  e.position? = none ∨ (∃ p, e = .unexpectedEnd p) ∨ ∃ t ∈ ts, e.At t

theorem Outlook.Raised.beyond {σ : Type} [TokenSource σ] [LawfulTokenSource σ]
    {ts : List Token} {e : Error} (h : (Outlook.ahead σ ts).Raised e) : e.Beyond ts := by
  cases h with
  | token ht he => exact .inr (.inr ⟨_, ht, he⟩)
  | finish _ => exact .inr (.inl ⟨_, rfl⟩)
  | output _ => exact .inl rfl
  | depth _ => exact .inl rfl

/-- Unless the source is too large, compiling it fails as its document does. -/
theorem compileSource_eq_error_iff {options : Options} {source : String}
    (h : options.checkSize source = .ok ()) {e : Error} : compileSource options source = .error e ↔
      ∃ run, Document.compile options.context (.start (Lexer.ofSource source) .unbounded) =
        .error e run := by
  have hcompile : compileSource options source =
      (compileInto .unbounded options.context source).output source := by
    rw [compileSource, h]
    rfl
  rw [hcompile, Outcome.output, compileInto, Compile.outcome]
  cases Document.compile options.context (.start (Lexer.ofSource source) .unbounded) with
  | ok _ run => simp [Except.map]
  | error e' run => simp [Except.map]

/-- No number of a source is reported as unreadable. -/
theorem compileSource_ne_number_error (options : Options) (source : String) (position : Position)
    (text : String) (fault : Single.TextFault) :
    compileSource options source ≠ .error (.invalidValue position (.number text fault)) := by
  intro h
  cases hsize : options.checkSize source with
  | error e =>
      rw [compileSource, hsize] at h
      obtain rfl := Except.error.inj h
      unfold Options.checkSize at hsize
      split at hsize <;> cases hsize
  | ok _ =>
      obtain ⟨run, hrun⟩ := (compileSource_eq_error_iff hsize).mp h
      have hresults := Document.accounts_compile (O := Lexer.outlook source) options.context
        (.start (.ofSource source) .unbounded) (.resumes (Lexer.resumes_ofSource source))
      rw [hrun] at hresults
      cases hresults with
      | error he =>
          cases he with
          | token ht hat =>
              cases hat with
              | invalidValue hfault => exact not_number_fault ht hfault

/-- **Number literals are accepted by their range, and by nothing else.**  No error of a source is
about a number that cannot be read.  Wherever an integer is expected and there is one, it is a
numeral, with or without a sign.  Without a sign and less than 2³² it is taken for its decimal
value, and errors can only be about what follows it.  Otherwise compiling the source fails, and the
error is that this integer is out of range. -/
theorem number_literals_by_range (options : Options) (source : String) :
    (∀ position text fault,
      compileSource options source ≠ .error (.invalidValue position (.number text fault))) ∧
    ∀ entry i opening l t after, Document.UpToColon options.context entry opening →
      Literal.Awaits entry.type i l → t.kind = .integer →
      (tokenize source).dropLast = opening ++ l ++ t :: after → options.checkSize source = .ok () →
      ∃ (negative : Bool) (digits : Digits),
        t.text.toList = (if negative then ['-'] else []) ++ digits.chars ∧
        (negative = false ∧ digits.value < 0x100000000 →
          Literal.ReadAs options.context entry.type i l t (UInt32.ofNat digits.value) ∧
          ∀ e, compileSource options source = .error e → e.Beyond after) ∧
        (¬ (negative = false ∧ digits.value < 0x100000000) →
          compileSource options source =
            .error (.invalidValue t.position (.integerRange t.text))) := by
  refine ⟨compileSource_ne_number_error options source, ?_⟩
  intro entry i opening l t after hopening hawaits ht htokens hsize
  have hmem : t ∈ tokenize source := List.dropLast_subset _ (by simp [htokens])
  obtain ⟨negative, digits, htext⟩ := exists_digits_of_mem hmem ht
  have hread := readUInt32_integer negative digits
  rw [← htext] at hread
  -- from here on the compiler is at the integer, and everything depends on what it is read as
  obtain ⟨f, hf, hleads⟩ := Document.asks_compile options.context ht hopening hawaits
  obtain ⟨run, hrun, -, hrest⟩ := hleads (.start (.ofSource source) .unbounded) after rfl (by
    show TokenSource.takeAll (Lexer.ofSource source) = _
    rw [← dropLast_tokenize, htokens]
    simp)
  refine ⟨negative, digits, htext, ?_, ?_⟩
  · rintro ⟨rfl, hlt⟩
    rw [if_neg (by decide), if_pos hlt] at hread
    refine ⟨hawaits.readAs options.context ⟨ht, hread⟩, fun e he => ?_⟩
    obtain ⟨run', herror⟩ := (compileSource_eq_error_iff hsize).mp he
    have hinteger :
        (Literal.integerOf t : Compile Lexer UInt32) = pure (UInt32.ofNat digits.value) := by
      rw [Literal.integerOf, hread]
    rw [hrun, hinteger, pure_bind] at herror
    have hresults := hf (UInt32.ofNat digits.value) (.ahead Lexer after) run ⟨[], hrest⟩
    rw [herror] at hresults
    cases hresults with
    | error hraised => exact hraised.beyond
  · intro hrange
    obtain ⟨fault, hfault⟩ : ∃ fault, Text.readUInt32 t.text.toList = .error fault := by
      rw [hread]
      cases negative with
      | true => exact ⟨_, rfl⟩
      | false => exact ⟨_, if_neg fun hlt => hrange ⟨rfl, hlt⟩⟩
    have hinteger : (Literal.integerOf t : Compile Lexer UInt32) =
        throw (.invalidValue t.position (.integerRange t.text)) := by
      rw [Literal.integerOf, hfault]
    refine (compileSource_eq_error_iff hsize).mpr ⟨run, ?_⟩
    rw [hrun, hinteger]
    rfl

/-- Two margins.  The zeros in front of the first do not matter, and the second is the least integer
that is too large. -/
theorem number_literals_by_range_margins :
    let source := "Panel \x7b margin: 0001, 4294967296; \x7d"
    let one : Token := ⟨.integer, "0001", ⟨1, 17⟩⟩
    Literal.ReadAs Options.default.context .margins 0 [] one 1 ∧
      compileSource .default source =
        .error (.invalidValue ⟨1, 23⟩ (.integerRange "4294967296")) := by
  intro source one
  let opening : List Token := [⟨.identifier, "Panel", ⟨1, 1⟩⟩, ⟨.openBrace, "\x7b", ⟨1, 7⟩⟩,
    ⟨.identifier, "margin", ⟨1, 9⟩⟩, ⟨.colon, ":", ⟨1, 15⟩⟩]
  let comma : Token := ⟨.comma, ",", ⟨1, 21⟩⟩
  let large : Token := ⟨.integer, "4294967296", ⟨1, 23⟩⟩
  let closing : List Token := [⟨.semicolon, ";", ⟨1, 33⟩⟩, ⟨.closeBrace, "\x7d", ⟨1, 35⟩⟩]
  have htokens : (tokenize source).dropLast = opening ++ one :: comma :: large :: closing := by
    decide +kernel
  have hroot : Options.default.context.symbols.widget? "Panel" = some ⟨"Panel", 17⟩ := by
    decide +kernel
  have hentry :
      Options.default.context.symbols.property? "margin" = some ⟨"margin", 3, .margins⟩ := by
    decide +kernel
  have hopening : Document.UpToColon Options.default.context ⟨"margin", 3, .margins⟩ opening :=
    .mk (by decide) rfl hroot rfl (.refl _) rfl hentry rfl
  have hfirst : Literal.Before Literal.IntegerToken [1] [one, comma] :=
    .later ⟨rfl, by decide +kernel⟩ .nil rfl
  have hrange := (number_literals_by_range .default source).2
  obtain ⟨negative, digits, htext, haccepted, -⟩ :=
    hrange _ 0 opening [] one _ hopening (.margins .first (by decide)) rfl htokens rfl
  obtain ⟨negative', digits', htext', -, hrefused⟩ :=
    hrange _ 1 opening [one, comma] large closing hopening
      (.margins hfirst (by decide)) rfl htokens rfl
  have hone : negative = false ∧ digits.value = 1 := by
    have hchars : one.text.toList = ['0', '0', '0', '1'] := by decide +kernel
    rw [hchars] at htext
    cases negative with
    | true => exact absurd (List.cons.inj htext).1 (by decide)
    | false =>
        have hdigits : ['0', '0', '0', '1'] = digits.chars := htext
        exact ⟨rfl, by rw [Digits.value, ← hdigits]; rfl⟩
  have hlarge : ¬ (negative' = false ∧ digits'.value < 0x100000000) := by
    rintro ⟨rfl, hlt⟩
    have hchars : "4294967296".toList = digits'.chars := htext'
    rw [Digits.value, ← hchars] at hlt
    exact absurd hlt (by decide +kernel)
  refine ⟨?_, hrefused hlarge⟩
  have hread := (haccepted ⟨hone.1, by rw [hone.2]; decide⟩).1
  rwa [hone.2] at hread

end WidgetLayout
