/-
Everything that compiles is put together from a few primitive actions.

`Composed` says so of an action that is given for every kind of source at once: it looks at tokens,
takes them, writes, records and counts, one thing after the other or in a loop, and fails of its own
accord only with certain errors.  What all of these actions have in common is then proved by
induction on how they are put together, with one case for each primitive, and not once for every
action: that they do not depend on the kind of the source (`Proofs/Queue.lean`), that a bound on the
sink only cuts their output off (`Proofs/BoundedSink.lean`), and which errors they raise
(`Proofs/Unfinished.lean`).

This module goes through the actions of literals and documents and finds that each is composed.
-/
import WidgetLayout.Proofs.Document

namespace WidgetLayout

open WidgetLayout.Progress

/-- An error that is found inside a document: neither that its tokens end nor that something follows
it. -/
def Error.Inner : Error → Prop
  | .unexpectedEnd _ => False
  | .unexpectedToken _ .endOfInput _ => False
  | _ => True

namespace Compile

/-- An action on every kind of source. -/
abbrev OnAny (α : Type) := ∀ (σ : Type) [TokenSource σ], Compile σ α

/-- An action put together from primitive ones.  It writes only if `w`, and the errors that it
raises itself are in `E`; that a sink is full or that there is no token is raised by the primitive
actions. -/
inductive Composed (w : Prop) (E : Error → Prop) : {α : Type} → OnAny α → Prop
  | pure {α : Type} (a : α) : Composed w E fun _ _ => pure a
  | throw {α : Type} (e : Error) (he : E e) : Composed w E (α := α) fun _ _ => throw e
  | write (bs : List UInt8) (hw : w) : Composed w E fun _ _ => write bs
  | record (event : Event) : Composed w E fun _ _ => record event
  | tally (f : Stats → Stats) : Composed w E fun _ _ => tally f
  | peek : Composed w E fun _ _ => peek
  | expect : Composed w E fun _ _ => expect
  | bind {α β : Type} {m : OnAny α} {f : α → OnAny β} (hm : Composed w E m)
      (hf : ∀ a, Composed w E (f a)) : Composed w E fun σ _ => m σ >>= fun a => f a σ
  | iterate {α β : Type} {step : β → OnAny (β ⊕ α)}
      (hadvances : ∀ (σ : Type) [TokenSource σ] (b : β), Advances (step b σ))
      (hstep : ∀ b, Composed w E (step b)) (b : β) :
      Composed w E fun σ _ => iterate (fun b => step b σ) (hadvances σ) b

namespace Composed

variable {w : Prop} {E E' : Error → Prop} {α β : Type}

theorem mono {m : OnAny α} (h : Composed w E m) (hE : ∀ e, E e → E' e) : Composed w E' m := by
  induction h with
  | pure a => exact .pure a
  | throw e he => exact .throw e (hE e he)
  | write bs hw => exact .write bs hw
  | record event => exact .record event
  | tally f => exact .tally f
  | peek => exact .peek
  | expect => exact .expect
  | bind _ _ ihm ihf => exact .bind ihm ihf
  | iterate hadvances _ b ih => exact .iterate hadvances ih b

theorem map {m : OnAny α} (h : Composed w E m) (f : α → β) : Composed w E fun σ _ => f <$> m σ :=
  h.bind fun a => .pure (f a)

theorem ite {c : Prop} [Decidable c] {m n : OnAny α} (hm : Composed w E m) (hn : Composed w E n) :
    Composed w E fun σ _ => if c then m σ else n σ := by
  by_cases hc : c
  · simp only [if_pos hc]
    exact hm
  · simp only [if_neg hc]
    exact hn

end Composed

theorem composed_accept {w : Prop} (kind : TokenKind) :
    Composed w Error.Inner fun _ _ => accept kind :=
  .bind .expect fun t => .ite (.pure t) (.throw _ trivial)

/-! ### What is left of a run

What the primitive actions make of a run, again and again, is what any action makes of it, however
that ends. -/

section Left

variable {w : Prop} {E : Error → Prop} {α σ : Type} [TokenSource σ]

theorem Composed.left_rel {m : OnAny α} (h : Composed w E m) {R : Run σ → Run σ → Prop}
    (hrefl : ∀ run, R run run) (htrans : ∀ {x y z}, R x y → R y z → R x z)
    (hwrite : w → ∀ bs run, R run (left (Compile.write bs run)))
    (hrecord : ∀ event run, R run (left (Compile.record event run)))
    (htally : ∀ f run, R run (left (Compile.tally f run)))
    (hpeek : ∀ run, R run (left (Compile.peek run)))
    (hexpect : ∀ run, R run (left (Compile.expect run))) : ∀ run, R run (left (m σ run)) := by
  induction h with
  | pure a => exact hrefl
  | throw e he => exact hrefl
  | write bs hw => exact hwrite hw bs
  | record event => exact hrecord event
  | tally f => exact htally f
  | peek => exact hpeek
  | expect => exact hexpect
  | @bind _ _ m f _ _ ihm ihf =>
      intro run
      show R run (left ((m σ >>= fun a => f a σ) run))
      have hm := ihm run
      cases hr : m σ run with
      | ok a run' =>
          rw [hr] at hm
          rw [bind_of_ok hr]
          exact htrans hm (ihf a run')
      | error e run' =>
          rw [hr] at hm
          rw [bind_of_error hr]
          exact hm
  | @iterate _ _ step hadvances _ b ih =>
      intro run
      show R run (left (iterateOn (fun b => step b σ) (hadvances σ) b run))
      fun_induction iterateOn (fun b => step b σ) (hadvances σ) b run with
      | case1 b run e run' hs =>
          have hstep := ih b run
          rw [hs] at hstep
          exact hstep
      | case2 b run a run' hs =>
          have hstep := ih b run
          rw [hs] at hstep
          exact hstep
      | case3 b run b' run' hs ihrun =>
          have hstep := ih b run
          rw [hs] at hstep
          exact htrans hstep ihrun

omit [TokenSource σ] in
/-- Writing touches nothing but the sink. -/
theorem left_write (bs : List UInt8) (run : Run σ) :
    left (write bs run) = { run with sink := (run.sink.write bs).2 } := by
  unfold write
  by_cases hfits : (run.sink.write bs).1
  · rw [if_pos hfits]
    rfl
  · rw [if_neg hfits]
    rfl

theorem sink_expect (run : Run σ) : (left (expect run)).sink = run.sink := by
  unfold expect
  rcases TokenSource.take run.source with ⟨_ | t, source⟩
  · rfl
  · rfl

theorem source_expect (run : Run σ) :
    (left (expect run)).source = (TokenSource.take run.source).2 := by
  unfold expect
  rcases TokenSource.take run.source with ⟨_ | t, source⟩
  · rfl
  · rfl

/-- Nothing but a write changes a sink. -/
theorem Composed.sink_rel {m : OnAny α} (h : Composed w E m) {R : Sink → Sink → Prop}
    (hrefl : ∀ s, R s s) (htrans : ∀ {s s' s''}, R s s' → R s' s'' → R s s'')
    (hwrite : w → ∀ s bs, R s (s.write bs).2) :
    ∀ run : Run σ, R run.sink (left (m σ run)).sink := by
  refine h.left_rel (R := fun x y => R x.sink y.sink) (fun run => hrefl run.sink) htrans ?_
    (fun _ run => hrefl run.sink) (fun _ run => hrefl run.sink) (fun run => hrefl run.sink) ?_
  · intro hw bs run
    rw [left_write]
    exact hwrite hw run.sink bs
  · intro run
    rw [sink_expect]
    exact hrefl run.sink

/-- Nothing but looking at a token and taking one changes a source. -/
theorem Composed.source_rel {m : OnAny α} (h : Composed w E m) {R : σ → σ → Prop}
    (hrefl : ∀ s, R s s) (htrans : ∀ {s s' s''}, R s s' → R s' s'' → R s s'')
    (hpeek : ∀ s, R s (TokenSource.peek s).2) (htake : ∀ s, R s (TokenSource.take s).2) :
    ∀ run : Run σ, R run.source (left (m σ run)).source := by
  refine h.left_rel (R := fun x y => R x.source y.source) (fun run => hrefl run.source) htrans ?_
    (fun _ run => hrefl run.source) (fun _ run => hrefl run.source) (fun run => hpeek run.source) ?_
  · intro _ bs run
    rw [left_write]
    exact hrefl run.source
  · intro run
    rw [source_expect]
    exact htake run.source

/-- Tokens are taken from the front, and none comes back. -/
theorem Composed.suffix [LawfulTokenSource σ] {m : OnAny α} (h : Composed w E m) (run : Run σ) :
    TokenSource.takeAll (left (m σ run)).source <:+ TokenSource.takeAll run.source := by
  refine h.source_rel (R := fun s s' => TokenSource.takeAll s' <:+ TokenSource.takeAll s)
    (fun _ => List.suffix_rfl) (fun h h' => h'.trans h) (fun s => ?_) (fun s => ?_) run
  · exact ⟨[], takeAll_peek s⟩
  · rw [takeAll_take]
    exact List.tail_suffix _

end Left

end Compile

open WidgetLayout.Compile

/-! ### Literals

Reading a literal writes nothing, so nothing is asked of `w`. -/

namespace Literal

variable {w : Prop}

theorem composed_integerOf (t : Token) : Composed w Error.Inner fun _ _ => integerOf t := by
  unfold integerOf
  cases Text.readUInt32 t.text.toList with
  | ok n => exact .pure n
  | error fault => exact .throw _ trivial

theorem composed_singleOf (t : Token) (digits : List Char) :
    Composed w Error.Inner fun _ _ => singleOf t digits := by
  unfold singleOf
  cases Single.read digits with
  | ok x => exact .pure x
  | error fault => exact .throw _ trivial

theorem composed_integer : Composed w Error.Inner fun _ _ => integer :=
  .bind (composed_accept _) composed_integerOf

theorem composed_number : Composed w Error.Inner fun _ _ => number :=
  .bind .expect fun t => .ite (composed_singleOf t _) (.throw _ trivial)

theorem composed_enumeration (symbols : SymbolTables) :
    Composed w Error.Inner fun _ _ => enumeration symbols := by
  refine .bind (composed_accept _) fun t => ?_
  cases symbols.enumeration? t.text with
  | some entry => exact .pure entry.value
  | none => exact .throw _ trivial

theorem composed_boolean : Composed w Error.Inner fun _ _ => boolean := by
  refine .bind (composed_accept _) fun t => ?_
  cases boolean? t.text with
  | some b => exact .pure b
  | none => exact .throw _ trivial

theorem composed_broadcast (values : List UInt32) (t : Token) :
    Composed w Error.Inner fun _ _ => broadcast values t := by
  unfold broadcast
  cases Margins.broadcast? values with
  | some m => exact .pure m
  | none => exact .throw _ trivial

theorem composed_moreMargins (n : Nat) :
    ∀ values : List UInt32, Composed w Error.Inner fun _ _ => moreMargins values n := by
  induction n with
  | zero =>
      intro values
      have hend : Composed w Error.Inner fun _ _ => accept .semicolon >>= broadcast values :=
        .bind (composed_accept _) (composed_broadcast values)
      refine .bind .peek fun front => ?_
      cases front with
      | some t => exact .ite (.throw _ trivial) hend
      | none => exact hend
  | succ n ih =>
      intro values
      exact .bind .expect fun t => .ite (composed_broadcast values t)
        (.ite (.bind composed_integer fun v => ih (values ++ [v])) (.throw _ trivial))

theorem composed_margins : Composed w Error.Inner fun _ _ => margins := by
  have hvalues : Composed w Error.Inner fun _ _ => integer >>= fun v => moreMargins [v] 3 :=
    .bind composed_integer fun v => composed_moreMargins 3 [v]
  refine .bind .peek fun front => ?_
  cases front with
  | some t => exact .ite (.throw _ trivial) hvalues
  | none => exact hvalues

theorem composed_sizeItem : Composed w Error.Inner fun _ _ => sizeItem := by
  refine .bind .expect fun t => ?_
  cases t.kind with
  | identifier => exact .ite (.pure _) (.ite (.pure _) (.throw _ trivial))
  | integer => exact (composed_integerOf t).map _
  | percentage => exact (composed_singleOf t _).map _
  | _ => exact .throw _ trivial

theorem composed_sizeStep (items : Array SizeItem) :
    Composed w Error.Inner fun _ _ => sizeStep items :=
  .bind .expect fun _ => .ite (.pure _) (.ite (composed_sizeItem.map _) (.throw _ trivial))

theorem composed_sizeList : Composed w Error.Inner fun _ _ => sizeList :=
  .bind composed_sizeItem fun item => .iterate _ composed_sizeStep #[item]

theorem composed_resource (resources : BindingTable) :
    Composed w Error.Inner fun _ _ => resource resources := by
  refine .bind (composed_accept _) fun word => .ite (.bind (composed_accept _) fun _ =>
    .bind (composed_accept _) fun name => .bind (composed_accept _) fun _ =>
      .bind (composed_accept _) fun _ => ?_) (.throw _ trivial)
  cases resources.get? name.text with
  | some id => exact .pure id
  | none => exact .throw _ trivial

theorem composed_ended {α : Type} {form : OnAny α} (h : Composed w Error.Inner form) :
    Composed w Error.Inner fun σ _ => ended (form σ) :=
  .bind h fun a => (composed_accept _).map fun _ => a

theorem composed_parse (symbols : SymbolTables) (resources : BindingTable) (type : ValueType) :
    Composed w Error.Inner fun _ _ => parse symbols resources type := by
  cases type with
  | integer => exact (composed_ended composed_integer).map _
  | number => exact (composed_ended composed_number).map _
  | enumeration => exact (composed_ended (composed_enumeration symbols)).map _
  | string => exact (composed_ended (composed_accept _)).map _
  | boolean => exact (composed_ended composed_boolean).map _
  | margins => exact composed_margins.map _
  | sizeList => exact composed_sizeList.map _
  | resource => exact (composed_resource resources).map _

theorem composed_writeValue (v : Value) : Composed True Error.Inner fun _ _ => writeValue v :=
  .ite (.write _ trivial) (.throw _ trivial)

theorem composed_encode (symbols : SymbolTables) (resources : BindingTable) (type : ValueType) :
    Composed True Error.Inner fun _ _ => encode symbols resources type :=
  .bind (composed_parse symbols resources type) fun v => (composed_writeValue v).map fun _ => v

end Literal

/-! ### Documents -/

namespace Document

variable (context : Context)

theorem composed_bound (entry : PropertyEntry) (name : Token) :
    Composed True Error.Inner fun _ _ => bound context entry name := by
  refine .bind (.write _ trivial) fun _ => .bind (composed_accept _) fun _ =>
    .bind (composed_accept _) fun _ => .bind (composed_accept _) fun source =>
      .bind (composed_accept _) fun _ => .bind (composed_accept _) fun _ => ?_
  cases context.bindings.properties.get? source.text with
  | some id => exact .bind (.write _ trivial) fun _ => .bind (.record _) fun _ => .tally _
  | none => exact .throw _ trivial

theorem composed_literal (entry : PropertyEntry) (name : Token) :
    Composed True Error.Inner fun _ _ => literal context entry name :=
  .bind (.write _ trivial) fun _ => .bind (Literal.composed_encode _ _ _) fun _ =>
    .bind (.record _) fun _ => .tally _

theorem composed_property (entry : PropertyEntry) (name : Token) :
    Composed True Error.Inner fun _ _ => property context entry name :=
  .bind (composed_accept _) fun _ => .bind .peek fun _ =>
    .ite (composed_bound context entry name) (composed_literal context entry name)

theorem composed_enterWidget (depth : Nat) (name : Token) :
    Composed True Error.Inner fun _ _ => enterWidget context depth name := by
  refine .bind (composed_accept _) fun _ => ?_
  cases context.symbols.widget? name.text with
  | some entry => exact .bind (.write _ trivial) fun _ => .bind (.record _) fun _ => .tally _
  | none => exact .throw _ trivial

theorem composed_openWidget (depth : Nat) (name : Token) :
    Composed True Error.Inner fun _ _ => openWidget context depth name :=
  .ite (.throw _ trivial) (composed_enterWidget context depth name)

omit context in
theorem composed_endProperties (here : Section) :
    Composed True Error.Inner fun _ _ => endProperties here := by
  cases here with
  | properties => exact .write _ trivial
  | children => exact .pure ()

theorem composed_bodyItem (here : Section) (outer : List Section) :
    Composed True Error.Inner fun _ _ => bodyItem context here outer := by
  refine .bind .expect fun t => ?_
  cases t.kind with
  | closeBrace =>
      exact .bind (composed_endProperties here) fun _ =>
        .bind (.write _ trivial) fun _ => .pure outer
  | identifier =>
      cases context.symbols.property? t.text with
      | some entry =>
          cases here with
          | children => exact .throw _ trivial
          | properties => exact (composed_property context entry t).map _
      | none =>
          cases context.symbols.widget? t.text with
          | some _ =>
              exact .bind (composed_endProperties here) fun _ =>
                (composed_openWidget context _ t).map _
          | none => exact .bind .peek fun _ => .throw _ trivial
  | _ => exact .throw _ trivial

theorem composed_bodyStep (sections : Section × List Section) :
    Composed True Error.Inner fun _ _ => bodyStep context sections :=
  (composed_bodyItem context sections.1 sections.2).map goOn

theorem composed_compileTree : Composed True Error.Inner fun _ _ => compileTree context :=
  .bind (composed_accept _) fun name => .bind (composed_openWidget context 1 name) fun _ =>
    .iterate _ (composed_bodyStep context) (.properties, [])

omit context in
/-- What follows a document is looked at, and then it is an error. -/
theorem composed_atEnd {E : Error → Prop}
    (hE : ∀ p found, E (.unexpectedToken p .endOfInput found)) :
    Composed True E fun _ _ => atEnd := by
  refine .bind .peek fun front => ?_
  cases front with
  | some t => exact .throw _ (hE _ _)
  | none => exact .pure ()

/-- Compiling a document is composed; only the end of the tokens is an error that it never raises
itself. -/
theorem composed_compile :
    Composed True (fun e => ∀ p, e ≠ .unexpectedEnd p) fun _ _ => compile context := by
  have htree :
      Composed True (fun e => ∀ p, e ≠ .unexpectedEnd p) fun _ _ => compileTree context := by
    refine (composed_compileTree context).mono fun e he p heq => ?_
    rw [heq] at he
    exact he
  have hend : Composed True (fun e => ∀ p, e ≠ .unexpectedEnd p) fun _ _ => atEnd :=
    composed_atEnd fun p found p' heq => by cases heq
  simp only [compile_eq]
  exact htree.bind fun _ => hend

end Document

end WidgetLayout
