/-
Which errors compiling can raise, and what each of them is about.

All errors but a few are about one token: that it has the wrong kind, that its text is no known name
or that it stands for no value.  `Error.At` lists them, with what is the matter with the token.  The
others are that the tokens end, that the output cannot be written and that widgets are nested too
deep.

An action can only complain about tokens that it has seen.  `Outlook` says what is known of a source
and stays known while tokens are looked at and taken: which tokens can come and where they can end.
`Accounts` says that an action keeps to that: what it returns is as expected, and the errors that it
raises are about tokens that can come and places where they can end.  It is closed under sequences
and loops, so it is shown of the primitive actions first and then, one action after the other, of
everything that compiles.
-/
import WidgetLayout.Proofs.Document

namespace WidgetLayout

open WidgetLayout.Progress

/-! ### Errors about a token

An error has the position of a token and often its text.  These relations say which tokens can be
blamed in which way, but not where in a document that happens. -/

/-- What a token that has the right form for a value can have wrong with it. -/
inductive ValueFault.Of (t : Token) : ValueFault → Prop
  | integerRange {fault : Text.NumeralFault} (hkind : t.kind = .integer)
      (h : Text.readUInt32 t.text.toList = .error fault) : Of t (.integerRange t.text)
  | number {digits : List Char} {fault : Single.TextFault}
      (hkind : t.kind ∈ [.integer, .number] ∧ digits = t.text.toList ∨
        t.kind = .percentage ∧ digits = Literal.withoutPercent t.text.toList)
      (h : Single.read digits = .error fault) : Of t (.number t.text fault)
  | boolean (hkind : t.kind = .identifier) (h : Literal.boolean? t.text = none) :
      Of t (.boolean t.text)
  /-- The comma after a fourth value, or the semicolon after three or none. -/
  | marginCount (hkind : t.kind ∈ [.comma, .semicolon]) : Of t .marginCount
  | sizeWord (hkind : t.kind = .identifier) (h : t.text ∉ ["auto", "expand"]) :
      Of t (.sizeWord t.text)

/-- An error about a token: it points at the token, and where it has a text in it, that is the
token's. -/
inductive Error.At (t : Token) : Error → Prop
  | unexpectedToken (expected : Expectation) : At t (.unexpectedToken t.position expected t.text)
  | unknownSymbol (kind : SymbolKind) : At t (.unknownSymbol t.position kind t.text)
  | propertyAfterChild : At t (.propertyAfterChild t.position t.text)
  | invalidValue {fault : ValueFault} (h : fault.Of t) : At t (.invalidValue t.position fault)

/-- What is known of a source, however many tokens are taken from it. -/
structure Outlook (σ : Type) [TokenSource σ] where
  Sources : σ → Prop
  /-- The tokens that can come. -/
  Tokens : Token → Prop
  /-- Where the tokens can end. -/
  Ends : Position → Prop
  peek : ∀ {s}, Sources s → (∀ t ∈ (TokenSource.peek s).1, Tokens t) ∧
    Sources (TokenSource.peek s).2
  take : ∀ {s}, Sources s → (∀ t ∈ (TokenSource.take s).1, Tokens t) ∧
    Sources (TokenSource.take s).2
  finish : ∀ {s}, Sources s → (TokenSource.take s).1 = none → Ends (TokenSource.position s)

namespace Outlook

variable {σ : Type} [TokenSource σ] (O : Outlook σ)

/-- The errors that compiling can raise. -/
inductive Raised : Error → Prop
  | token {t : Token} {e : Error} (ht : O.Tokens t) (he : e.At t) : Raised e
  | finish {p : Position} (hp : O.Ends p) : Raised (.unexpectedEnd p)
  | output (fault : OutputFault) : Raised (.output fault)
  | depth (bound : Nat) : Raised (.limitExceeded .nestingDepth bound)

/-- What an action can come to. -/
inductive Results {α : Type} (R : α → Prop) : EStateM.Result Error (Run σ) α → Prop
  | ok {a : α} {run : Run σ} (hvalue : R a) (hrun : O.Sources run.source) : Results R (.ok a run)
  | error {e : Error} {run : Run σ} (he : O.Raised e) : Results R (.error e run)

/-- From a run whose source is known, the action comes to what it can come to. -/
def Accounts {α : Type} (m : Compile σ α) (R : α → Prop := fun _ => True) : Prop :=
  ∀ run, O.Sources run.source → O.Results R (m run)

variable {O} {α β : Type} {R : α → Prop} {S : β → Prop} {t : Token}

/-! ### Primitive actions -/

theorem accounts_pure {a : α} (h : R a) : O.Accounts (pure a) R := fun _ hrun => .ok h hrun

theorem accounts_throw {e : Error} (h : O.Raised e) : O.Accounts (throw e) R := fun _ _ => .error h

/-- An action complains about a token that can come. -/
theorem accounts_throw_at {e : Error} (ht : O.Tokens t) (he : e.At t) : O.Accounts (throw e) R :=
  accounts_throw (.token ht he)

theorem accounts_write (bs : List UInt8) : O.Accounts (Compile.write bs) := by
  intro run hrun
  unfold Compile.write
  by_cases hfits : (run.sink.write bs).1
  · rw [if_pos hfits]
    exact .ok trivial hrun
  · rw [if_neg hfits]
    exact .error (.output _)

theorem accounts_record (event : Event) : O.Accounts (Compile.record event) :=
  fun _ hrun => .ok trivial hrun

theorem accounts_tally (f : Stats → Stats) : O.Accounts (Compile.tally f) :=
  fun _ hrun => .ok trivial hrun

theorem accounts_peek : O.Accounts Compile.peek fun front => ∀ t ∈ front, O.Tokens t := by
  intro run hrun
  obtain ⟨hfront, hsource⟩ := O.peek hrun
  exact .ok hfront hsource

theorem accounts_expect : O.Accounts Compile.expect O.Tokens := by
  intro run hrun
  obtain ⟨hfront, hsource⟩ := O.take hrun
  have hend := O.finish hrun
  unfold Compile.expect
  rcases htake : TokenSource.take run.source with ⟨_ | t, source⟩
  all_goals rw [htake] at hfront hsource hend
  · exact .error (.finish (hend rfl))
  · exact .ok (hfront t rfl) hsource

/-! ### Sequences and loops

A source stays within its outlook however many tokens are taken.  So what a whole can raise is
what its parts can raise. -/

theorem Accounts.bind {m : Compile σ α} {f : α → Compile σ β} (hm : O.Accounts m R)
    (hf : ∀ a, R a → O.Accounts (f a) S) : O.Accounts (m >>= f) S := by
  intro run hrun
  have hresult := hm run hrun
  generalize hr : m run = r at hresult
  cases hresult with
  | ok hvalue hrun' =>
      rw [bind_of_ok hr]
      exact hf _ hvalue _ hrun'
  | error he =>
      rw [bind_of_error hr]
      exact .error he

theorem Accounts.map {m : Compile σ α} (hm : O.Accounts m R) {f : α → β} (hf : ∀ a, R a → S (f a)) :
    O.Accounts (f <$> m) S :=
  hm.bind fun a ha => accounts_pure (hf a ha)

theorem Accounts.ite {c : Prop} [Decidable c] {m n : Compile σ α} (hm : c → O.Accounts m R)
    (hn : ¬ c → O.Accounts n R) : O.Accounts (if c then m else n) R := by
  by_cases hc : c
  · rw [if_pos hc]
    exact hm hc
  · rw [if_neg hc]
    exact hn hc

theorem accounts_iterate {step : β → Compile σ (β ⊕ α)} {hstep : ∀ b, Advances (step b)}
    (h : ∀ b, O.Accounts (step b)) (b : β) :
    O.Accounts (iterate step hstep b) := by
  intro run hrun
  show O.Results _ (iterateOn step hstep b run)
  fun_induction iterateOn step hstep b run with
  | case1 b run e run' hs =>
      have hresult := h b run hrun
      rw [hs] at hresult
      cases hresult with
      | error he => exact .error he
  | case2 b run a run' hs =>
      have hresult := h b run hrun
      rw [hs] at hresult
      cases hresult with
      | ok _ hrun' => exact .ok trivial hrun'
  | case3 b run b' run' hs ih =>
      have hresult := h b run hrun
      rw [hs] at hresult
      cases hresult with
      | ok _ hrun' => exact ih hrun'

theorem accounts_accept (kind : TokenKind) :
    O.Accounts (Compile.accept kind) fun t => O.Tokens t ∧ t.kind = kind :=
  accounts_expect.bind fun _ ht =>
    .ite (fun hkind => accounts_pure ⟨ht, hkind⟩) fun _ => accounts_throw_at ht (.unexpectedToken _)

end Outlook

open Outlook

variable {σ : Type} [TokenSource σ] {O : Outlook σ} {t : Token}

/-! ### Literals -/

namespace Literal

theorem accounts_integerOf (ht : O.Tokens t) (hkind : t.kind = .integer) :
    O.Accounts (integerOf t) := by
  unfold integerOf
  cases hread : Text.readUInt32 t.text.toList with
  | ok n => exact accounts_pure trivial
  | error fault => exact accounts_throw_at ht (.invalidValue (.integerRange hkind hread))

theorem accounts_singleOf {digits : List Char} (ht : O.Tokens t)
    (hkind : t.kind ∈ [.integer, .number] ∧ digits = t.text.toList ∨
      t.kind = .percentage ∧ digits = withoutPercent t.text.toList) :
    O.Accounts (singleOf t digits) := by
  unfold singleOf
  cases hread : Single.read digits with
  | ok x => exact accounts_pure trivial
  | error fault => exact accounts_throw_at ht (.invalidValue (.number hkind hread))

theorem accounts_integer : O.Accounts integer :=
  (accounts_accept _).bind fun _ h => accounts_integerOf h.1 h.2

theorem accounts_number : O.Accounts number :=
  accounts_expect.bind fun _ ht =>
    .ite (fun hkind => accounts_singleOf ht (.inl ⟨by simpa using hkind, rfl⟩)) fun _ =>
      accounts_throw_at ht (.unexpectedToken _)

theorem accounts_enumeration (symbols : SymbolTables) : O.Accounts (enumeration symbols) := by
  refine (accounts_accept _).bind fun t h => ?_
  cases symbols.enumeration? t.text with
  | some entry => exact accounts_pure trivial
  | none => exact accounts_throw_at h.1 (.unknownSymbol _)

theorem accounts_boolean : O.Accounts boolean := by
  refine (accounts_accept _).bind fun t h => ?_
  cases hword : boolean? t.text with
  | some b => exact accounts_pure trivial
  | none => exact accounts_throw_at h.1 (.invalidValue (.boolean h.2 hword))

theorem accounts_broadcast (values : List UInt32) (ht : O.Tokens t) (hkind : t.kind = .semicolon) :
    O.Accounts (broadcast values t) := by
  unfold broadcast
  cases Margins.broadcast? values with
  | some m => exact accounts_pure trivial
  | none => exact accounts_throw_at ht (.invalidValue (.marginCount (by simp [hkind])))

theorem accounts_moreMargins (n : Nat) :
    ∀ values, O.Accounts (moreMargins values n) := by
  induction n with
  | zero =>
      intro values
      have hend : O.Accounts (Compile.accept .semicolon >>= broadcast values) :=
        (accounts_accept _).bind fun _ h => accounts_broadcast values h.1 h.2
      refine accounts_peek.bind fun front hfront => ?_
      cases front with
      | none => exact hend
      | some t =>
          exact .ite (fun hkind => accounts_throw_at (hfront t rfl)
            (.invalidValue (.marginCount (by simp [hkind])))) fun _ => hend
  | succ n ih =>
      intro values
      exact accounts_expect.bind fun t ht => .ite (accounts_broadcast values ht) fun _ =>
        .ite (fun _ => accounts_integer.bind fun v _ => ih (values ++ [v])) fun _ =>
          accounts_throw_at ht (.unexpectedToken _)

theorem accounts_margins : O.Accounts margins := by
  have hvalues : O.Accounts (integer >>= fun v => moreMargins [v] 3) :=
    accounts_integer.bind fun v _ => accounts_moreMargins 3 [v]
  refine accounts_peek.bind fun front hfront => ?_
  cases front with
  | none => exact hvalues
  | some t =>
      exact .ite (fun hkind => accounts_throw_at (hfront t rfl)
        (.invalidValue (.marginCount (by simp [hkind])))) fun _ => hvalues

theorem accounts_sizeItem : O.Accounts sizeItem := by
  refine accounts_expect.bind fun t ht => ?_
  cases hkind : t.kind with
  | identifier =>
      refine .ite (fun _ => accounts_pure trivial) fun hauto =>
        .ite (fun _ => accounts_pure trivial) fun hexpand => ?_
      exact accounts_throw_at ht (.invalidValue (.sizeWord hkind (by simp [hauto, hexpand])))
  | integer => exact (accounts_integerOf ht hkind).map fun _ _ => trivial
  | percentage => exact (accounts_singleOf ht (.inr ⟨hkind, rfl⟩)).map fun _ _ => trivial
  | _ => exact accounts_throw_at ht (.unexpectedToken _)

theorem accounts_sizeStep (items : Array SizeItem) : O.Accounts (sizeStep items) :=
  accounts_expect.bind fun _ ht => .ite (fun _ => accounts_pure trivial) fun _ =>
    .ite (fun _ => accounts_sizeItem.map fun _ _ => trivial) fun _ =>
      accounts_throw_at ht (.unexpectedToken _)

theorem accounts_sizeList : O.Accounts sizeList :=
  accounts_sizeItem.bind fun item _ => accounts_iterate accounts_sizeStep #[item]

theorem accounts_resource (resources : BindingTable) : O.Accounts (resource resources) := by
  refine (accounts_accept _).bind fun word hword => .ite (fun _ => ?_) fun _ =>
    accounts_throw_at hword.1 (.unexpectedToken _)
  refine (accounts_accept _).bind fun _ _ => (accounts_accept _).bind fun name hname =>
    (accounts_accept _).bind fun _ _ => (accounts_accept _).bind fun _ _ => ?_
  cases resources.get? name.text with
  | some id => exact accounts_pure trivial
  | none => exact accounts_throw_at hname.1 (.unknownSymbol _)

theorem accounts_ended {α : Type} {R : α → Prop} {form : Compile σ α} (h : O.Accounts form R) :
    O.Accounts (ended form) R :=
  h.bind fun _ ha => (accounts_accept _).bind fun _ _ => accounts_pure ha

theorem accounts_parse (symbols : SymbolTables) (resources : BindingTable) (type : ValueType) :
    O.Accounts (parse symbols resources type) := by
  cases type with
  | integer => exact (accounts_ended accounts_integer).map fun _ _ => trivial
  | number => exact (accounts_ended accounts_number).map fun _ _ => trivial
  | enumeration => exact (accounts_ended (accounts_enumeration symbols)).map fun _ _ => trivial
  | string => exact (accounts_ended (accounts_accept _)).map fun _ _ => trivial
  | boolean => exact (accounts_ended accounts_boolean).map fun _ _ => trivial
  | margins => exact accounts_margins.map fun _ _ => trivial
  | sizeList => exact accounts_sizeList.map fun _ _ => trivial
  | resource => exact (accounts_resource resources).map fun _ _ => trivial

theorem accounts_encode (symbols : SymbolTables) (resources : BindingTable) (type : ValueType) :
    O.Accounts (encode symbols resources type) := by
  refine (accounts_parse symbols resources type).bind fun v _ => ?_
  have hwrite : O.Accounts (writeValue v) :=
    .ite (fun _ => accounts_write _) fun _ => accounts_throw (.output _)
  exact hwrite.bind fun _ _ => accounts_pure trivial

end Literal

/-! ### Documents -/

namespace Document

variable (context : Context)

theorem accounts_bound (entry : PropertyEntry) (name : Token) :
    O.Accounts (bound context entry name) := by
  refine (accounts_write _).bind fun _ _ => (accounts_accept _).bind fun _ _ =>
    (accounts_accept _).bind fun _ _ => (accounts_accept _).bind fun source hsource =>
      (accounts_accept _).bind fun _ _ => (accounts_accept _).bind fun _ _ => ?_
  cases context.bindings.properties.get? source.text with
  | some id =>
      exact (accounts_write _).bind fun _ _ => (accounts_record _).bind fun _ _ => accounts_tally _
  | none => exact accounts_throw_at hsource.1 (.unknownSymbol _)

theorem accounts_literal (entry : PropertyEntry) (name : Token) :
    O.Accounts (literal context entry name) :=
  (accounts_write _).bind fun _ _ => (Literal.accounts_encode _ _ _).bind fun _ _ =>
    (accounts_record _).bind fun _ _ => accounts_tally _

theorem accounts_property (entry : PropertyEntry) (name : Token) :
    O.Accounts (property context entry name) :=
  (accounts_accept _).bind fun _ _ => accounts_peek.bind fun _ _ =>
    .ite (fun _ => accounts_bound context entry name) fun _ => accounts_literal context entry name

theorem accounts_openWidget (depth : Nat) {name : Token} (hname : O.Tokens name) :
    O.Accounts (openWidget context depth name) := by
  refine .ite (fun _ => accounts_throw (.depth _)) fun _ => (accounts_accept _).bind fun _ _ => ?_
  cases context.symbols.widget? name.text with
  | some entry =>
      exact (accounts_write _).bind fun _ _ => (accounts_record _).bind fun _ _ => accounts_tally _
  | none => exact accounts_throw_at hname (.unknownSymbol _)

omit context in
theorem accounts_endProperties (here : Section) : O.Accounts (endProperties here) := by
  cases here with
  | properties => exact accounts_write _
  | children => exact accounts_pure trivial

theorem accounts_bodyItem (here : Section) (outer : List Section) :
    O.Accounts (bodyItem context here outer) := by
  refine accounts_expect.bind fun t ht => ?_
  cases t.kind with
  | closeBrace =>
      exact (accounts_endProperties here).bind fun _ _ => (accounts_write _).bind fun _ _ =>
        accounts_pure trivial
  | identifier =>
      dsimp only
      cases context.symbols.property? t.text with
      | some entry =>
          cases here with
          | children => exact accounts_throw_at ht .propertyAfterChild
          | properties =>
              exact (accounts_property context entry t).bind fun _ _ => accounts_pure trivial
      | none =>
          dsimp only
          cases context.symbols.widget? t.text with
          | some _ =>
              exact (accounts_endProperties here).bind fun _ _ =>
                (accounts_openWidget context _ ht).bind fun _ _ => accounts_pure trivial
          | none => exact accounts_peek.bind fun _ _ => accounts_throw_at ht (.unknownSymbol _)
  | _ => exact accounts_throw_at ht (.unexpectedToken _)

/-- **Every error of a document is accounted for.** -/
theorem accounts_compile : O.Accounts (compile context) := by
  have hbody : ∀ sections, O.Accounts (bodyStep context sections) :=
    fun sections => (accounts_bodyItem context sections.1 sections.2).map fun _ _ => trivial
  refine (accounts_accept _).bind fun name hname =>
    (accounts_openWidget context 1 hname.1).bind fun _ _ =>
    (accounts_iterate hbody _).bind fun _ _ => accounts_peek.bind fun front hfront => ?_
  cases front with
  | none => exact accounts_pure trivial
  | some t => exact accounts_throw_at (hfront t rfl) (.unexpectedToken _)

end Document

end WidgetLayout
