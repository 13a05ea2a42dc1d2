/-
A document is compiled exactly if it spells a tree, and then to the bytes of that tree.

Bytes are written while tokens are read and no tree is ever built, so the tree has to be found in
what the steps did.  `Item` says what one step takes, writes and counts.  In one direction a tree
that is spelled is taken apart into items (`chain_inside`, `chain_children`); in the other
`Completes` says what each open widget still lacks, and an item taken back adds to that
(`Item.completes`).

The zero that ends the properties of a widget is written late: by its first child, or by its closing
brace if it has none.  `sectionEnd` is the zero that is still owed.
-/
import WidgetLayout.Proofs.Grammar

namespace WidgetLayout.Document

open WidgetLayout.Compile WidgetLayout.Progress

/-! ### Effects of items

An item is a property, the beginning of a child or the end of a widget.  Its bytes include the
zero that is owed for the properties before it. -/

/-- The end of the properties, if it was not written before. -/
def sectionEnd : Section → List UInt8
  | .properties => [terminator]
  | .children => []

/-- The effect of the beginning of a widget at a depth, with some tokens. -/
def opens (l : List Token) (entry : WidgetEntry) (depth : Nat) : Effect :=
  ⟨l, [entry.tag], ⟨1, 0, 0, depth⟩⟩

/-- The effect of the end of a widget, with some tokens. -/
def closes (l : List Token) (here : Section) : Effect := ⟨l, sectionEnd here ++ [terminator], .zero⟩

/-- The effect of a property, with some tokens. -/
def assigns (p : Property) (l : List Token) : Effect := ⟨l, p.encode, Property.tally [p]⟩

/-- The effect of a binding after its colon. -/
def BoundValue (context : Context) (entry : PropertyEntry) (e : Effect) : Prop :=
  ∃ word opening source closing semi id, word.kind = .identifier ∧ opening.kind = .openParens ∧
    source.kind = .string ∧ closing.kind = .closeParens ∧ semi.kind = .semicolon ∧
      context.bindings.properties.get? source.text = some id ∧
        e = ⟨[word, opening, source, closing, semi], (entry.id ||| bindingFlag) :: Wire.varint id,
          ⟨0, 0, 1, 0⟩⟩

/-- The effect of a literal after its colon. -/
def LiteralValue (context : Context) (entry : PropertyEntry) (e : Effect) : Prop :=
  ∃ v l, Literal.Spelled context.symbols context.bindings.resources entry.type v l ∧ v.Fits ∧
    e = ⟨l, entry.id :: v.encode, ⟨0, 1, 0, 0⟩⟩

/-- What one step does after its first token, and which widgets are open then. -/
inductive Item (context : Context) (here : Section) (outer : List Section) (t : Token) :
    List Section → Effect → Prop
  | property {p : Property} {l : List Token} (hhere : here = .properties)
      (hp : p.Spelled context (t :: l)) :
      Item context here outer t (.properties :: outer) (assigns p l)
  | child {opening : Token} {entry : WidgetEntry} (ht : t.kind = .identifier)
      (hproperty : context.symbols.property? t.text = none)
      (hentry : context.symbols.widget? t.text = some entry)
      (hopening : opening.kind = .openBrace) (hdepth : outer.length + 2 ≤ context.maxDepth) :
      Item context here outer t (.properties :: .children :: outer)
        (.write (sectionEnd here) ++ opens [opening] entry (outer.length + 2))
  | finish (ht : t.kind = .closeBrace) :
      Item context here outer t outer (closes [] here)

section Items

variable {context : Context} {here : Section} {outer sections : List Section}
  {t : Token} {e : Effect}

theorem item_iff_of_closeBrace (ht : t.kind = .closeBrace) :
    Item context here outer t sections e ↔ sections = outer ∧ e = closes [] here := by
  constructor
  · intro h
    cases h with
    | property _ hp => exact absurd (ht.symm.trans hp.head.1) (by decide)
    | child ht' => exact absurd (ht.symm.trans ht') (by decide)
    | finish => exact ⟨rfl, rfl⟩
  · rintro ⟨rfl, rfl⟩
    exact .finish ht

theorem item_iff_of_property {entry : PropertyEntry} (ht : t.kind = .identifier)
    (hentry : context.symbols.property? t.text = some entry) :
    Item context here outer t sections e ↔ here = .properties ∧
      ∃ p l, p.Spelled context (t :: l) ∧ sections = .properties :: outer ∧ e = assigns p l := by
  constructor
  · intro h
    cases h with
    | property hhere hp => exact ⟨hhere, _, _, hp, rfl, rfl⟩
    | child _ hnone => exact absurd (hentry.symm.trans hnone) (Option.some_ne_none _)
    | finish ht' => exact absurd (ht.symm.trans ht') (by decide)
  · rintro ⟨hhere, p, l, hp, rfl, rfl⟩
    exact .property hhere hp

theorem item_iff_of_not_property (ht : t.kind = .identifier)
    (hproperty : context.symbols.property? t.text = none) :
    Item context here outer t sections e ↔ outer.length + 2 ≤ context.maxDepth ∧
      ∃ opening entry, opening.kind = .openBrace ∧ context.symbols.widget? t.text = some entry ∧
        sections = .properties :: .children :: outer ∧
          e = .write (sectionEnd here) ++ opens [opening] entry (outer.length + 2) := by
  constructor
  · intro h
    cases h with
    | property _ hp => exact absurd hproperty hp.head.2
    | child _ _ hentry hopening hdepth => exact ⟨hdepth, _, _, hopening, hentry, rfl, rfl⟩
    | finish ht' => exact absurd (ht.symm.trans ht') (by decide)
  · rintro ⟨hdepth, opening, entry, hopening, hentry, rfl, rfl⟩
    exact .child ht hproperty hentry hopening hdepth

end Items

/-! ### What the actions do -/

section Actions

variable {σ : Type} [TokenSource σ] (context : Context)

omit context in
/-- Writing, recording and counting in a row. -/
theorem does_emit (bs : List UInt8) (event : Event) {f : Stats → Stats} (stats : Stats)
    (hf : ∀ s, f s = s.join stats) :
    Does (do write bs; record event; tally f : Compile σ Unit) fun _ e => e = ⟨[], bs, stats⟩ := by
  refine ((does_write bs).bind fun _ => (does_record event).bind fun _ => does_tally stats hf).congr
    fun _ e => ?_
  simp [Effect.append_eq, Effect.write, Effect.count, Effect.nothing]

theorem does_enterWidget (depth : Nat) (name : Token) :
    Does (enterWidget context depth name : Compile σ Unit) fun _ e =>
      ∃ opening entry, opening.kind = .openBrace ∧ context.symbols.widget? name.text = some entry ∧
        e = opens [opening] entry depth := by
  refine ((does_accept .openBrace).bind fun opening =>
    Takes.of_option (o := context.symbols.widget? name.text)
      (fun hnone => by rw [hnone]; exact Takes.throw _)
      (fun entry hsome => by rw [hsome]; exact does_emit _ _ ⟨1, 0, 0, depth⟩ fun _ => rfl)).congr
        fun _ e => ?_
  constructor
  · intro h
    obtain ⟨opening, _, _, ⟨hopening, rfl⟩, ⟨entry, hentry, rfl⟩, rfl⟩ := h
    exact ⟨opening, entry, hopening, hentry, by simp [opens, Effect.append_eq, Effect.take]⟩
  · intro h
    obtain ⟨opening, entry, hopening, hentry, rfl⟩ := h
    exact ⟨opening, _, _, ⟨hopening, rfl⟩, ⟨entry, hentry, rfl⟩,
      by simp [opens, Effect.append_eq, Effect.take]⟩

theorem does_openWidget (depth : Nat) (name : Token) :
    Does (openWidget context depth name : Compile σ Unit) fun _ e => depth ≤ context.maxDepth ∧
      ∃ opening entry, opening.kind = .openBrace ∧ context.symbols.widget? name.text = some entry ∧
        e = opens [opening] entry depth := by
  unfold openWidget
  refine (Takes.ite (Takes.throw _) (does_enterWidget context depth name)).congr fun _ e => ?_
  by_cases hdepth : context.maxDepth < depth
  · rw [if_pos hdepth]
    simp [Nat.not_le.mpr hdepth]
  · rw [if_neg hdepth]
    simp [Nat.not_lt.mp hdepth]

theorem does_endProperties (here : Section) :
    Does (endProperties here : Compile σ Unit) fun _ e => e = .write (sectionEnd here) := by
  cases here with
  | properties => exact does_write _
  | children =>
      exact (Takes.pure ()).congr fun _ e => by simp [sectionEnd, Effect.write, Effect.nothing]

theorem does_bound (entry : PropertyEntry) (name : Token) :
    Does (bound context entry name : Compile σ Unit) fun _ => BoundValue context entry := by
  refine ((does_write _).bind fun _ => (does_accept .identifier).bind fun word =>
    (does_accept .openParens).bind fun opening => (does_accept .string).bind fun source =>
      (does_accept .closeParens).bind fun closing => (does_accept .semicolon).bind fun semi =>
        Takes.of_option (o := context.bindings.properties.get? source.text)
          (fun hnone => by rw [hnone]; exact Takes.throw _)
          (fun id hsome => by
            rw [hsome]
            exact does_emit _ _ ⟨0, 0, 1, 0⟩ fun s => by simp [Stats.join])).congr fun _ e => ?_
  constructor
  · intro h
    obtain ⟨_, _, _, rfl, ⟨word, _, _, ⟨hword, rfl⟩, ⟨opening, _, _, ⟨hopening, rfl⟩,
      ⟨source, _, _, ⟨hsource, rfl⟩, ⟨closing, _, _, ⟨hclosing, rfl⟩, ⟨semi, _, _, ⟨hsemi, rfl⟩,
        ⟨id, hid, rfl⟩, rfl⟩, rfl⟩, rfl⟩, rfl⟩, rfl⟩, rfl⟩ := h
    exact ⟨word, opening, source, closing, semi, id, hword, hopening, hsource, hclosing, hsemi, hid,
      by simp [Effect.append_eq, Effect.take, Effect.write]⟩
  · intro h
    obtain ⟨word, opening, source, closing, semi, id, hword, hopening, hsource,
      hclosing, hsemi, hid, rfl⟩ := h
    exact ⟨(), _, _, rfl, ⟨word, _, _, ⟨hword, rfl⟩, ⟨opening, _, _, ⟨hopening, rfl⟩,
      ⟨source, _, _, ⟨hsource, rfl⟩, ⟨closing, _, _, ⟨hclosing, rfl⟩, ⟨semi, _, _, ⟨hsemi, rfl⟩,
        ⟨id, hid, rfl⟩, rfl⟩, rfl⟩, rfl⟩, rfl⟩, rfl⟩, by
        simp [Effect.append_eq, Effect.take, Effect.write]⟩

variable [LawfulTokenSource σ]

theorem does_literal (entry : PropertyEntry) (name : Token) :
    Does (literal context entry name : Compile σ Unit) fun _ => LiteralValue context entry := by
  refine ((does_write _).bind fun _ =>
    (Literal.does_encode context.symbols context.bindings.resources entry.type).bind fun v =>
      (does_record _).bind fun _ => does_tally ⟨0, 1, 0, 0⟩ fun s => by simp [Stats.join]).congr
        fun _ e => ?_
  constructor
  · intro h
    obtain ⟨_, _, _, rfl, ⟨v, _, _, ⟨l, hl, hfits, rfl⟩, ⟨_, _, _, rfl, rfl, rfl⟩, rfl⟩, rfl⟩ := h
    exact ⟨v, l, hl, hfits, by simp [Effect.append_eq, Effect.write, Effect.count, Effect.nothing]⟩
  · intro h
    obtain ⟨v, l, hl, hfits, rfl⟩ := h
    exact ⟨(), _, _, rfl, ⟨v, _, _, ⟨l, hl, hfits, rfl⟩, ⟨(), _, _, rfl, rfl, rfl⟩, rfl⟩,
      by simp [Effect.append_eq, Effect.write, Effect.count, Effect.nothing]⟩

omit [TokenSource σ] [LawfulTokenSource σ] in
theorem spelled_ne_nil {type : ValueType} {v : Value} {l : List Token}
    (h : Literal.Spelled context.symbols context.bindings.resources type v l) : l ≠ [] := by
  cases h <;> exact List.cons_ne_nil _ _

/-- After its name a property goes on with what completes the name to a spelling of it. -/
theorem does_property {entry : PropertyEntry} {name : Token} (hname : name.kind = .identifier)
    (hentry : context.symbols.property? name.text = some entry) :
    Does (property context entry name : Compile σ Unit) fun _ e =>
      ∃ p l, p.Spelled context (name :: l) ∧ e = assigns p l := by
  have htakes : ∀ (front : Option Token) (u : Unit) (e : Effect),
      (if front.any (·.isWord "bind") then BoundValue context entry e
        else LiteralValue context entry e) → e.tokens ≠ [] := by
    intro front _ e h
    by_cases hfront : front.any (·.isWord "bind")
    · rw [if_pos hfront] at h
      obtain ⟨word, opening, source, closing, semi, id, -, -, -, -, -, -, rfl⟩ := h
      exact List.cons_ne_nil _ _
    · rw [if_neg hfront] at h
      obtain ⟨v, l, hl, -, rfl⟩ := h
      exact spelled_ne_nil context hl
  have hvalue := does_peek_bind (fun front => Takes.ite (c := front.any (·.isWord "bind"))
    (does_bound (σ := σ) context entry name) (does_literal context entry name)) htakes
  refine ((does_accept .colon).bind fun colon => hvalue).congr fun _ e => ?_
  constructor
  · intro h
    obtain ⟨colon, _, e, ⟨hcolon, rfl⟩, h, rfl⟩ := h
    by_cases hfront : e.tokens.head?.any (·.isWord "bind")
    · rw [if_pos hfront] at h
      obtain ⟨word, opening, source, closing, semi, id, -, hopening, hsource, hclosing, hsemi, hid,
        rfl⟩ := h
      exact ⟨_, _, .binding hname hentry hcolon hfront hopening hsource hclosing hsemi hid, rfl⟩
    · rw [if_neg hfront] at h
      obtain ⟨v, l, hl, hfits, rfl⟩ := h
      refine ⟨_, _, .literal hname hentry hcolon hl ?_ hfits, rfl⟩
      intro t ht
      simpa [ht] using hfront
  · intro h
    obtain ⟨p, l, hp, rfl⟩ := h
    cases hp with
    | @literal entry' _ colon v l _ hentry' hcolon hl hbind hfits =>
        obtain rfl := Option.some.inj (hentry.symm.trans hentry')
        refine ⟨colon, _, ⟨l, entry.id :: v.encode, ⟨0, 1, 0, 0⟩⟩, ⟨hcolon, rfl⟩, ?_, rfl⟩
        have hfront : ¬ l.head?.any (·.isWord "bind") := by
          cases hhead : l.head? with
          | none => simp
          | some t => simp [hbind t hhead]
        rw [if_neg hfront]
        exact ⟨v, l, hl, hfits, rfl⟩
    | @binding entry' _ colon word opening source closing semi id _ hentry' hcolon hword hopening
        hsource hclosing hsemi hid =>
        obtain rfl := Option.some.inj (hentry.symm.trans hentry')
        refine ⟨colon, _, ⟨[word, opening, source, closing, semi],
          (entry.id ||| bindingFlag) :: Wire.varint id, ⟨0, 0, 1, 0⟩⟩, ⟨hcolon, rfl⟩, ?_, rfl⟩
        rw [if_pos
          (show [word, opening, source, closing, semi].head?.any (·.isWord "bind") from hword)]
        have hkind : word.kind = .identifier := by
          simp only [Token.isWord, Bool.and_eq_true, decide_eq_true_eq] at hword
          exact hword.1
        exact ⟨word, opening, source, closing, semi, id, hkind, hopening, hsource,
          hclosing, hsemi, hid, rfl⟩

theorem does_bodyItem (here : Section) (outer : List Section) :
    Does (bodyItem context here outer : Compile σ (List Section)) fun sections e =>
      ∃ t e', Item context here outer t sections e' ∧ e = .take [t] ++ e' := by
  refine (does_expect.bind (H := Item context here outer) fun t => ?_).congr fun sections e => ?_
  · split
    · rename_i hkind
      refine ((does_endProperties here).bind fun _ => (does_write _).bind_pure _).congr
        fun sections e => ?_
      rw [item_iff_of_closeBrace hkind]
      constructor
      · intro h
        obtain ⟨_, _, _, rfl, ⟨_, rfl, rfl⟩, rfl⟩ := h
        exact ⟨rfl, rfl⟩
      · intro h
        obtain ⟨rfl, rfl⟩ := h
        exact ⟨(), _, _, rfl, ⟨(), rfl, rfl⟩, rfl⟩
    · rename_i hkind
      cases hproperty : context.symbols.property? t.text with
      | some entry =>
          cases here with
          | children =>
              refine (Takes.throw _).congr fun sections e => ?_
              simp [item_iff_of_property hkind hproperty]
          | properties =>
              refine ((does_property context hkind hproperty).bind_pure _).congr
                fun sections e => ?_
              rw [item_iff_of_property hkind hproperty]
              constructor
              · intro h
                obtain ⟨_, ⟨p, l, hp, rfl⟩, rfl⟩ := h
                exact ⟨rfl, p, l, hp, rfl, rfl⟩
              · intro h
                obtain ⟨-, p, l, hp, rfl, rfl⟩ := h
                exact ⟨(), ⟨p, l, hp, rfl⟩, rfl⟩
      | none =>
          cases hwidget : context.symbols.widget? t.text with
          | some entry =>
              refine ((does_endProperties here).bind fun _ =>
                (does_openWidget context (outer.length + 2) t).bind_pure _).congr
                  fun sections e => ?_
              rw [item_iff_of_not_property hkind hproperty]
              constructor
              · intro h
                obtain ⟨_, _, _, rfl,
                  ⟨_, ⟨hdepth, opening, entry', hopening, hentry, rfl⟩, rfl⟩, rfl⟩ := h
                exact ⟨hdepth, opening, entry', hopening, hentry, rfl, rfl⟩
              · intro h
                obtain ⟨hdepth, opening, entry', hopening, hentry, rfl, rfl⟩ := h
                exact ⟨(), _, _, rfl,
                  ⟨(), ⟨hdepth, opening, entry', hopening, hentry, rfl⟩, rfl⟩, rfl⟩
          | none =>
              refine (does_peek_throw _).congr fun sections e => ?_
              simp [item_iff_of_not_property hkind hproperty, hwidget]
    · rename_i hclose hidentifier
      refine (Takes.throw _).congr fun sections e => ⟨False.elim, fun h => ?_⟩
      cases h with
      | property _ hp => exact hidentifier hp.head.1
      | child ht => exact hidentifier ht
      | finish ht => exact hclose ht
  · constructor
    · intro h
      obtain ⟨t, _, e', rfl, hitem, rfl⟩ := h
      exact ⟨t, e', hitem, rfl⟩
    · intro h
      obtain ⟨t, e', hitem, rfl⟩ := h
      exact ⟨t, _, e', rfl, hitem, rfl⟩

/-- One step through the open widgets. -/
def Body (context : Context) (state : Section × List Section) (r : (Section × List Section) ⊕ Unit)
    (e : Effect) : Prop :=
  ∃ t sections e', Item context state.1 state.2 t sections e' ∧ e = .take [t] ++ e' ∧
    r = goOn sections

theorem does_bodyStep (state : Section × List Section) :
    Does (bodyStep context state : Compile σ ((Section × List Section) ⊕ Unit))
      (Body context state) := by
  refine ((does_bodyItem context state.1 state.2).map goOn).congr fun r e => ?_
  constructor
  · intro h
    obtain ⟨sections, ⟨t, e', hitem, rfl⟩, rfl⟩ := h
    exact ⟨t, sections, e', hitem, rfl, rfl⟩
  · intro h
    obtain ⟨t, sections, e', hitem, rfl, rfl⟩ := h
    exact ⟨sections, ⟨t, e', hitem, rfl⟩, rfl⟩

end Actions

/-! ### A tree that is spelled is compiled in steps

The recursion is on the tree.  `chain_children` starts in either section, because it is the first
child that writes the end of the properties; what it leaves to be written is the end that is still
owed. -/

section Chains

variable {σ : Type} [TokenSource σ] {context : Context}

theorem body_property {p : Property} {l : List Token} (outer : List Section)
    (hp : p.Spelled context l) :
    Body context (.properties, outer) (.inl (.properties, outer)) (assigns p l) := by
  cases l with
  | nil => cases hp
  | cons t l =>
      exact ⟨t, _, _, .property rfl hp, by simp [assigns, Effect.append_eq, Effect.take], rfl⟩

theorem body_child {word opening : Token} {entry : WidgetEntry} (here : Section)
    (outer : List Section) (hword : word.kind = .identifier)
    (hproperty : context.symbols.property? word.text = none)
    (hentry : context.symbols.widget? word.text = some entry) (hopening : opening.kind = .openBrace)
    (hdepth : outer.length + 2 ≤ context.maxDepth) :
    Body context (here, outer) (.inl (.properties, .children :: outer))
      (.write (sectionEnd here) ++ opens [word, opening] entry (outer.length + 2)) :=
  ⟨word, _, _, .child hword hproperty hentry hopening hdepth,
    by simp [opens, Effect.append_eq, Effect.take, Effect.write], rfl⟩

theorem body_finish {closing : Token} (here : Section) (outer : List Section)
    (hclosing : closing.kind = .closeBrace) :
    Body context (here, outer) (goOn outer) (closes [closing] here) :=
  ⟨closing, _, _, .finish hclosing, by simp [closes, Effect.append_eq, Effect.take], rfl⟩

theorem chain_properties (outer : List Section) (ps : List Property) :
    ∀ {l : List Token}, Joined (Property.Spelled context) ps l →
      Chain (tape σ) (Body context) (.properties, outer)
        ⟨l, ps.flatMap Property.encode, Property.tally ps⟩ (.properties, outer) := by
  induction ps with
  | nil =>
      intro l hl
      obtain rfl : l = [] := hl
      exact .refl _
  | cons p ps ih =>
      intro l hl
      obtain ⟨l₁, l₂, hp, hps, rfl⟩ := hl
      rw [Property.tally_cons, List.flatMap_cons]
      exact .head (body_property outer hp) (ih hps)

mutual

theorem chain_inside :
    (w : Widget) → (outer : List Section) → ∀ {l : List Token}, w.Spelled context l →
    w.height ≤ context.maxDepth - outer.length →
      ∃ word opening closing here e, word.kind = .identifier ∧
        context.symbols.widget? word.text = some ⟨w.name, w.tag⟩ ∧ opening.kind = .openBrace ∧
          closing.kind = .closeBrace ∧ l.head? = some word ∧
            Chain (tape σ) (Body context) (.properties, outer) e (here, outer) ∧
              (⟨l, w.encode, w.tally (outer.length + 1)⟩ : Effect) =
                opens [word, opening] ⟨w.name, w.tag⟩ (outer.length + 1) ++ e ++
                  closes [closing] here
  | ⟨name, tag, properties, children⟩, outer, l, hspelled, hheight => by
      rw [Widget.Spelled] at hspelled
      rw [Widget.height] at hheight
      obtain ⟨word, opening, closing, ps, cs, hword, hentry, hopening, hclosing, hps, hcs, rfl⟩ :=
        hspelled
      obtain ⟨here, e, hchain, heq⟩ := chain_children children .properties outer hcs (by omega)
      refine ⟨word, opening, closing, here, _, hword, hentry, hopening, hclosing, rfl,
        (chain_properties outer properties hps).trans hchain, ?_⟩
      have hcloses :
          closes [closing] here = .write (sectionEnd here) ++ closes [closing] .children := by
        simp [closes, sectionEnd, Effect.append_eq, Effect.write]
      rw [hcloses, tape_append, Effect.append_assoc, Effect.append_assoc,
        ← Effect.append_assoc e, ← heq, Widget.encode, Widget.tally]
      simp [opens, closes, sectionEnd, Effect.append_eq, Effect.write]

theorem chain_children : (ws : List Widget) → (here : Section) → (outer : List Section) →
    ∀ {l : List Token}, Widget.ChildrenSpelled context ws l →
      Widget.heightAll ws ≤ context.maxDepth - (outer.length + 1) →
      ∃ here' e, Chain (tape σ) (Body context) (here, outer) e (here', outer) ∧
        .write (sectionEnd here) ++
          ⟨l, Widget.encodeAll ws, Widget.tallyAll (outer.length + 2) ws⟩ =
          e ++ .write (sectionEnd here')
  | [], here, outer, l, hspelled, _ => by
      rw [Widget.ChildrenSpelled] at hspelled
      refine ⟨here, .nothing, .refl _, ?_⟩
      rw [hspelled, Widget.encodeAll, Widget.tallyAll]
      simp [Effect.append_eq, Effect.nothing, Effect.write]
  | w :: ws, here, outer, l, hspelled, hheight => by
      rw [Widget.ChildrenSpelled] at hspelled
      rw [Widget.heightAll] at hheight
      obtain ⟨l₁, l₂, hw, hname, hws, rfl⟩ := hspelled
      obtain ⟨word, opening, closing, here₁, e₁, hword, hentry, hopening, hclosing, hhead,
          hchain₁, heq₁⟩ :=
        chain_inside w (.children :: outer) hw (Nat.le_trans (Nat.le_max_left _ _) hheight)
      obtain ⟨here₂, e₂, hchain₂, heq₂⟩ := chain_children ws .children outer hws (by omega)
      have hpos := Widget.height_pos w
      have hbegin := body_child here outer hword (hname word hhead) hentry hopening (by omega)
      have hend : Body context (here₁, .children :: outer) (.inl (.children, outer)) _ :=
        body_finish here₁ (.children :: outer) hclosing
      refine ⟨here₂, _, ((Chain.head hbegin hchain₁).trans (Chain.single hend)).trans hchain₂, ?_⟩
      have hrest : (⟨l₂, Widget.encodeAll ws, Widget.tallyAll (outer.length + 2) ws⟩ : Effect) =
          e₂ ++ .write (sectionEnd here₂) := by
        rw [← heq₂]
        exact (Effect.nothing_append _).symm
      calc .write (sectionEnd here) ++
            ⟨l₁ ++ l₂, Widget.encodeAll (w :: ws), Widget.tallyAll (outer.length + 2) (w :: ws)⟩
        _ = .write (sectionEnd here) ++ (⟨l₁, w.encode, w.tally (outer.length + 2)⟩ ++
            ⟨l₂, Widget.encodeAll ws, Widget.tallyAll (outer.length + 2) ws⟩) := by
          rw [Widget.encodeAll, Widget.tallyAll]
          rfl
        _ = .write (sectionEnd here) ++
          (opens [word, opening] ⟨w.name, w.tag⟩ (outer.length + 2) ++ e₁ ++
            closes [closing] here₁ ++ (e₂ ++ .write (sectionEnd here₂))) := by
          rw [hrest]
          exact congrArg (fun e => _ ++ (e ++ _)) heq₁
        _ = _ := by
          simp only [tape_append, Effect.append_assoc]

end

end Chains

/-! ### What steps have done is a tree

Nothing of a tree is kept while it is compiled, so `Completes` only says that some tree goes with
what is still to be done: for every open widget its remaining properties and children, the innermost
first. -/

/-- The effect of the children still to come at a depth, and of the brace after them. -/
def ChildrenLeft (context : Context) (depth : Nat) (cs : List Widget) (e : Effect) : Prop :=
  Widget.heightAll cs ≤ context.maxDepth - depth ∧
    ∃ l closing, Widget.ChildrenSpelled context cs l ∧ closing.kind = .closeBrace ∧
      e = ⟨l, Widget.encodeAll cs, Widget.tallyAll (depth + 1) cs⟩ ++ closes [closing] .children

/-- The effect of what is still to come of a widget at a depth. -/
def WidgetLeft (context : Context) (depth : Nat) :
    Section → List Property → List Widget → Effect → Prop
  | .children, ps, cs, e => ps = [] ∧ ChildrenLeft context depth cs e
  | .properties, ps, cs, e => ∃ l e', Joined (Property.Spelled context) ps l ∧
    ChildrenLeft context depth cs e' ∧
      e = ⟨l, ps.flatMap Property.encode, Property.tally ps⟩ ++ (.write [terminator] ++ e')

/-- The effect of what is still to come of all open widgets. -/
def Completes (context : Context) : List Section → Effect → Prop
  | [], e => e = .nothing
  | here :: outer, e => ∃ ps cs e₁ e₂, WidgetLeft context (outer.length + 1) here ps cs e₁ ∧
    Completes context outer e₂ ∧ e = e₁ ++ e₂

section Completes

variable {context : Context}

/-- Before the children of a widget its properties are ended, in whichever section it is. -/
theorem ChildrenLeft.widgetLeft {depth : Nat} {cs : List Widget} {e : Effect} (here : Section)
    (h : ChildrenLeft context depth cs e) :
    WidgetLeft context depth here [] cs (.write (sectionEnd here) ++ e) := by
  cases here with
  | properties => exact ⟨[], e, rfl, h, (Effect.nothing_append _).symm⟩
  | children =>
      refine ⟨rfl, ?_⟩
      rw [show Effect.write (sectionEnd .children) = .nothing from rfl, Effect.nothing_append]
      exact h

theorem childrenLeft_nil (depth : Nat) {closing : Token} (hclosing : closing.kind = .closeBrace) :
    ChildrenLeft context depth [] (closes [closing] .children) := by
  refine ⟨?_, [], closing, ?_, hclosing, ?_⟩
  · rw [Widget.heightAll]
    exact Nat.zero_le _
  · rw [Widget.ChildrenSpelled]
  · rw [Widget.encodeAll, Widget.tallyAll]
    exact (Effect.nothing_append _).symm

/-- A child that is still to come stands before the children that come after it. -/
theorem childrenLeft_cons {depth : Nat} {word opening : Token} {entry : WidgetEntry}
    {ps : List Property} {cs cs' : List Widget} {e e' : Effect}
    (hdepth : depth + 1 ≤ context.maxDepth) (hword : word.kind = .identifier)
    (hproperty : context.symbols.property? word.text = none)
    (hentry : context.symbols.widget? word.text = some entry) (hopening : opening.kind = .openBrace)
    (hinside : WidgetLeft context (depth + 1) .properties ps cs e)
    (hafter : ChildrenLeft context depth cs' e') :
    ChildrenLeft context depth (⟨entry.name, entry.tag, ps, cs⟩ :: cs')
      (opens [word, opening] entry (depth + 1) ++ e ++ e') := by
  obtain ⟨lp, _, hps, ⟨hheight, lc, closing, hcs, hclosing, rfl⟩, rfl⟩ := hinside
  obtain ⟨hheight', l', closing', hcs', hclosing', rfl⟩ := hafter
  refine ⟨?_, (word :: opening :: lp ++ lc ++ [closing]) ++ l', closing', ?_, hclosing', ?_⟩
  · rw [Widget.heightAll, Widget.height]
    omega
  · rw [Widget.ChildrenSpelled]
    refine ⟨word :: opening :: lp ++ lc ++ [closing], l', ?_, ?_, hcs', rfl⟩
    · rw [Widget.Spelled]
      exact ⟨word, opening, closing, lp, lc, hword, hentry, hopening, hclosing, hps, hcs, rfl⟩
    · intro t ht
      obtain rfl : word = t := Option.some.inj ht
      exact hproperty
  · rw [Widget.encodeAll, Widget.encode, Widget.tallyAll, Widget.tally]
    simp [opens, closes, sectionEnd, Effect.append_eq, Effect.write, Stats.join_assoc]

/-- Taking a step back, what it did is still to come again. -/
theorem Item.completes {here : Section} {outer sections : List Section} {t : Token} {e e' : Effect}
    (h : Item context here outer t sections e) (hrest : Completes context sections e') :
    Completes context (here :: outer) (.take [t] ++ e ++ e') := by
  cases h with
  | @property p l hhere hp =>
      obtain ⟨ps, cs, _, e₂, ⟨l', e₁, hps, hcs, rfl⟩, houter, rfl⟩ := hrest
      obtain rfl : here = .properties := hhere
      refine ⟨p :: ps, cs, _, e₂,
        ⟨t :: l ++ l', e₁, ⟨t :: l, l', hp, hps, rfl⟩, hcs, rfl⟩, houter, ?_⟩
      rw [Property.tally_cons, List.flatMap_cons]
      simp [assigns, Effect.append_eq, Effect.take, Stats.join_assoc]
  | @child opening entry ht hproperty hentry hopening hdepth =>
      obtain ⟨ps, cs, e₁, _, hinside, ⟨_, cs', e₂, e₃, ⟨rfl, hafter⟩, houter, rfl⟩, rfl⟩ := hrest
      have hcs := childrenLeft_cons hdepth ht hproperty hentry hopening hinside hafter
      refine ⟨[], _, _, e₃, hcs.widgetLeft here, houter, ?_⟩
      simp [opens, Effect.append_eq, Effect.take, Effect.write, Stats.join_assoc]
  | finish ht =>
      refine ⟨[], [], _, e', (childrenLeft_nil _ ht).widgetLeft here, hrest, ?_⟩
      simp [closes, sectionEnd, Effect.append_eq, Effect.take, Effect.write]

variable {σ : Type} [TokenSource σ]

/-- Whatever the steps did from open widgets to the end was still to come before the first of
them. -/
theorem completes_of_rounds {state : Section × List Section} {e : Effect}
    (h : Rounds (tape σ) (Body context) state () e) : Completes context (state.1 :: state.2) e := by
  obtain ⟨last, e₁, e₂, hchain, ⟨t, sections, e₃, hitem, rfl, hend⟩, rfl⟩ := h
  have hsections : sections = [] := by
    cases sections with
    | nil => rfl
    | cons here outer => cases hend
  induction hchain with
  | refl state =>
      rw [hsections] at hitem
      have hcompletes := hitem.completes rfl
      rw [Effect.append_nothing] at hcompletes
      rw [tape_append, tape_nil, Effect.nothing_append]
      exact hcompletes
  | @head state state' _ q r hround _ ih =>
      obtain ⟨t', sections', e', hitem', rfl, hgoOn⟩ := hround
      obtain rfl : sections' = state'.1 :: state'.2 := by
        cases sections' with
        | nil => cases hgoOn
        | cons here outer =>
            obtain rfl := Sum.inl.inj hgoOn
            rfl
      rw [(tape σ).append_assoc]
      exact hitem'.completes (ih hitem)

end Completes

/-! ### Documents -/

section Compile

variable {σ : Type} [TokenSource σ]

theorem advances_bodyStep (context : Context) (state : Section × List Section) :
    Advances (bodyStep context state : Compile σ ((Section × List Section) ⊕ Unit)) :=
  (shrinks_bodyStep context state).advances

/-- Compiles a document up to the brace that ends it. -/
def compileTree (context : Context) : Compile σ Unit := do
  let name ← accept .identifier
  openWidget context 1 name
  iterate (bodyStep context) (advances_bodyStep context) (.properties, [])

/-- Makes sure that nothing follows. -/
def atEnd : Compile σ Unit := do
  match ← peek with
  | some t => throw (.unexpectedToken t.position .endOfInput t.text)
  | none => return ()

theorem compile_eq (context : Context) :
    (compile context : Compile σ Unit) = compileTree context >>= fun _ => atEnd := by
  unfold compileTree
  rw [bind_assoc]
  refine bind_congr fun name => ?_
  rw [bind_assoc]
  rfl

variable [LawfulTokenSource σ]

theorem atEnd_eq_ok_iff {run run' : Run σ} :
    atEnd run = .ok () run' ↔ TokenSource.takeAll run.source = [] ∧
      run' = { run with source := (TokenSource.peek run.source).2 } := by
  have hpeek : atEnd run = (match (TokenSource.takeAll run.source).head? with
      | some t => throw (.unexpectedToken t.position .endOfInput t.text)
      | none => pure () : Compile σ Unit)
        { run with source := (TokenSource.peek run.source).2 } := by
    rw [← peek_eq_head?]
    rfl
  rw [hpeek]
  cases hl : TokenSource.takeAll run.source with
  | nil =>
      constructor
      · intro h
        obtain ⟨-, rfl⟩ := EStateM.Result.ok.inj h
        exact ⟨rfl, rfl⟩
      · intro h
        rw [h.2]
        rfl
  | cons t ts =>
      constructor
      · intro h
        cases h
      · intro h
        cases h.1

/-- **A tree is compiled from its spellings, to its bytes.** -/
theorem does_compileTree (context : Context) :
    Does (compileTree context : Compile σ Unit) fun _ e =>
      ∃ w : Widget, w.height ≤ context.maxDepth ∧ w.Spelled context e.tokens ∧
        e.bytes = w.encode ∧ e.stats = w.tally 1 := by
  refine ((does_accept .identifier).bind fun name => (does_openWidget context 1 name).bind fun _ =>
    Takes.iterate (does_bodyStep context) (.properties, [])).congr fun _ e => ?_
  constructor
  · intro h
    obtain ⟨word, _, _, ⟨hword, rfl⟩,
      ⟨_, _, _, ⟨hdepth, opening, entry, hopening, hentry, rfl⟩, hrounds, rfl⟩, rfl⟩ := h
    obtain ⟨ps, cs, _, _,
        ⟨lp, _, hps, ⟨hheight, lc, closing, hcs, hclosing, rfl⟩, rfl⟩, rfl, rfl⟩ :=
      completes_of_rounds hrounds
    refine ⟨⟨entry.name, entry.tag, ps, cs⟩, ?_, ?_, ?_, ?_⟩
    · have hheight : Widget.heightAll cs ≤ context.maxDepth - 1 := hheight
      rw [Widget.height]
      omega
    · rw [Widget.Spelled]
      exact ⟨word, opening, closing, lp, lc, hword, hentry, hopening, hclosing, hps, hcs,
        by simp [opens, closes, Effect.append_eq, Effect.take, Effect.write, Effect.nothing]⟩
    · rw [Widget.encode]
      simp [opens, closes, sectionEnd, Effect.append_eq, Effect.take, Effect.write, Effect.nothing]
    · rw [Widget.tally]
      simp [opens, closes, Effect.append_eq, Effect.take, Effect.write, Effect.nothing]
  · intro h
    obtain ⟨w, hheight, hspelled, hbytes, hstats⟩ := h
    obtain ⟨word, opening, closing, here, e', hword, hentry, hopening, hclosing, -, hchain, heq⟩ :=
      chain_inside (σ := σ) w [] hspelled hheight
    have hpos := Widget.height_pos w
    have he : e = opens [word, opening] ⟨w.name, w.tag⟩ 1 ++ e' ++ closes [closing] here :=
      (Effect.ext rfl hbytes hstats : e = ⟨e.tokens, w.encode, w.tally 1⟩).trans heq
    refine ⟨word, _,
      opens [opening] ⟨w.name, w.tag⟩ 1 ++ (e' ++ closes [closing] here), ⟨hword, rfl⟩,
      ⟨(), _, _, ⟨by omega, opening, _, hopening, hentry, rfl⟩,
        ⟨(here, []), _, _, hchain, body_finish here [] hclosing, rfl⟩, rfl⟩, ?_⟩
    rw [he]
    simp [opens, Effect.append_eq, Effect.take, Stats.join_assoc]

/-- A document is compiled exactly if its tokens spell a tree that is not too deep; the bytes of the
tree are then what was written, and its counts what was counted. -/
theorem compile_eq_ok_iff {context : Context} {run : Run σ} (hrun : run.sink.capacity = none)
    {bytes : List UInt8} {stats : Stats} :
    (∃ run', compile context run = .ok () run' ∧ run'.sink.bytes.toList = bytes ∧
      run'.stats = stats) ↔
      ∃ w : Widget, w.height ≤ context.maxDepth ∧
        w.Spelled context (TokenSource.takeAll run.source) ∧
        bytes = run.sink.bytes.toList ++ w.encode ∧ stats = run.stats.join (w.tally 1) := by
  rw [compile_eq]
  constructor
  · intro h
    obtain ⟨run', hcompile, rfl, rfl⟩ := h
    obtain ⟨_, run₁, htree, hend⟩ := bind_eq_ok_iff.mp hcompile
    obtain ⟨hnil, rfl⟩ := atEnd_eq_ok_iff.mp hend
    obtain ⟨e, ⟨w, hheight, hspelled, hbytes, hstats⟩, htokens, hbytes', hstats'⟩ :=
      (does_compileTree context).sound hrun htree
    have htokens : TokenSource.takeAll run.source = e.tokens ++ TokenSource.takeAll run₁.source :=
      htokens
    rw [hnil, List.append_nil] at htokens
    rw [hbytes] at hbytes'
    rw [hstats] at hstats'
    rw [htokens]
    exact ⟨w, hheight, hspelled, hbytes', hstats'⟩
  · intro h
    obtain ⟨w, hheight, hspelled, rfl, rfl⟩ := h
    obtain ⟨run₁, htree, hview⟩ := (does_compileTree (σ := σ) context).complete (x := run)
      (q := ⟨TokenSource.takeAll run.source, w.encode, w.tally 1⟩)
      (z := ⟨[], run.sink.bytes.toList ++ w.encode, run.stats.join (w.tally 1)⟩)
      hrun ⟨w, hheight, hspelled, rfl, rfl⟩ ⟨(List.append_nil _).symm, rfl, rfl⟩
    have hnil : TokenSource.takeAll run₁.source = [] := congrArg Effect.tokens hview
    exact ⟨_, bind_eq_ok_iff.mpr ⟨(), run₁, htree, atEnd_eq_ok_iff.mpr ⟨hnil, rfl⟩⟩,
      congrArg Effect.bytes hview, congrArg Effect.stats hview⟩

omit [TokenSource σ] [LawfulTokenSource σ] in
/-- The result of a compilation is good exactly if its action ended well. -/
theorem outcome_result_iff {m : Compile σ Unit} {run : Run σ} :
    (m.outcome run).result = .ok () ↔ m run = .ok () (m.outcome run).run := by
  unfold Compile.outcome
  cases m run with
  | ok _ run' => simp
  | error e run' => simp

end Compile

/-- **Compiling accepts exactly the spellings of trees, and writes exactly their bytes.**  A queue
of tokens is compiled to some bytes if and only if it spells, with nothing left over, a tree that is
nested no deeper than allowed and whose record these bytes are.  The literals among its properties
are those that reading a literal of the declared type accepts. -/
theorem compile_ok_iff_spelled (context : Context) (q : List Token) (b : List UInt8) :
    let outcome := (compile context).outcome (.start q .unbounded)
    ((outcome.result = .ok () ∧ outcome.run.sink.bytes.toList = b) ↔
      ∃ w : Widget, w.height ≤ context.maxDepth ∧ w.Spelled context q ∧ b = w.encode) ∧
    ∀ type v l, Literal.Spelled context.symbols context.bindings.resources type v l ↔
      ∃ run, Literal.parse context.symbols context.bindings.resources type (.start l .unbounded) =
        .ok v run ∧ run.source = [] := by
  have hstart : (Run.start q .unbounded).sink.capacity = none := rfl
  refine ⟨?_, fun type v l => Literal.spelled_iff_parse⟩
  constructor
  · intro h
    obtain ⟨hresult, hbytes⟩ := h
    obtain ⟨w, hheight, hspelled, hb, -⟩ := (compile_eq_ok_iff hstart).mp
      ⟨_, outcome_result_iff.mp hresult, hbytes, rfl⟩
    have hspelled : w.Spelled context (TokenSource.takeAll q) := hspelled
    rw [takeAll_list] at hspelled
    exact ⟨w, hheight, hspelled, hb⟩
  · intro h
    obtain ⟨w, hheight, hspelled, rfl⟩ := h
    have hspelled : w.Spelled context (TokenSource.takeAll q) := by
      rw [takeAll_list]
      exact hspelled
    obtain ⟨run, hrun, hbytes, -⟩ := (compile_eq_ok_iff hstart).mpr ⟨w, hheight, hspelled, rfl, rfl⟩
    have houtcome : (compile context).outcome (.start q .unbounded) = ⟨run, .ok ()⟩ := by
      rw [Compile.outcome, hrun]
    rw [houtcome]
    exact ⟨rfl, hbytes⟩

-- A text, a number of two groups and two sizes:
-- `Panel { text: "Hi"; left: 300; columns: auto, 3; }`.
example :
    let words : List (TokenKind × String) :=
      [(.identifier, "Panel"), (.openBrace, "\x7b"),
       (.identifier, "text"), (.colon, ":"), (.string, "Hi"), (.semicolon, ";"),
       (.identifier, "left"), (.colon, ":"), (.integer, "300"), (.semicolon, ";"),
       (.identifier, "columns"), (.colon, ":"), (.identifier, "auto"), (.comma, ","),
       (.integer, "3"), (.semicolon, ";"), (.closeBrace, "\x7d")]
    let queue : List Token := words.map fun word => ⟨word.1, word.2, ⟨1, 1⟩⟩
    let outcome := (compile ⟨.shipped, .empty, 1⟩).outcome (.start queue .unbounded)
    outcome.result = .ok () ∧ outcome.run.sink.bytes.toList =
      [17, 10, 2, 72, 105, 18, 130, 44, 17, 2, 8, 3, 0, 0] := by
  decide +kernel

end WidgetLayout.Document
