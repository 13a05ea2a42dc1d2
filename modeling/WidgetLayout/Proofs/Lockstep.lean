/-
Two compilations that go on in step.

Start the same action from two runs that differ in some respect.  If what the action asks of its
source is answered alike on both sides, it does the same on both: it takes the same branches, writes
the same bytes and ends in the same way, and the runs it leaves still differ only in that respect.
`Lockstep` says in which respects two runs may differ: in where their tokens stand, in the sources
that hand out these tokens and in what was counted before.  The events of a run are left out,
because nothing depends on them.

`InStep` is closed under sequences and loops, so it is shown of the primitive actions first and
then, one action after the other, of everything that compiles.
-/
import WidgetLayout.Compilation
import WidgetLayout.Proofs.Document

namespace WidgetLayout

open WidgetLayout.Progress

namespace Error

/-- An error that points at `p` wherever it pointed before; one that points at no place stays as it
is. -/
def placed (p : Position) : Error → Error
  | .unexpectedToken _ expected found => .unexpectedToken p expected found
  | .unexpectedEnd _ => .unexpectedEnd p
  | .unknownSymbol _ kind name => .unknownSymbol p kind name
  | .invalidValue _ fault => .invalidValue p fault
  | .propertyAfterChild _ property => .propertyAfterChild p property
  | e => e

theorem placed_placed (e : Error) (p q : Position) : (e.placed p).placed q = e.placed q := by
  cases e <;> rfl

/-- An error points where it points. -/
theorem placed_position (e : Error) (p : Position) : e.placed (e.position?.getD p) = e := by
  cases e <;> rfl

/-- Errors that are the same at one place are the same but for their places. -/
theorem eq_placed {e e' : Error} {p : Position} (h : e.placed p = e'.placed p) :
    e' = e.placed (e'.position?.getD p) := by
  calc e' = e'.placed (e'.position?.getD p) := (placed_position e' p).symm
    _ = (e'.placed p).placed (e'.position?.getD p) := (placed_placed e' p _).symm
    _ = (e.placed p).placed (e'.position?.getD p) := by rw [h]
    _ = e.placed (e'.position?.getD p) := placed_placed e p _

end Error

/-- Tokens that differ only in where they stand, and there only in places that are not told
apart. -/
structure Token.Alike (Places : Position → Position → Prop) (t u : Token) : Prop where
  face : t.face = u.face
  place : Places t.position u.position

theorem Token.Alike.kind {Places : Position → Position → Prop} {t u : Token}
    (h : t.Alike Places u) :
    t.kind = u.kind := congrArg Prod.fst h.face

theorem Token.Alike.text {Places : Position → Position → Prop} {t u : Token}
    (h : t.Alike Places u) :
    t.text = u.text := congrArg Prod.snd h.face

/-- In which respects two runs may differ. -/
structure Lockstep (σ τ : Type) [TokenSource σ] [TokenSource τ] where
  /-- Places that are not told apart. -/
  Places : Position → Position → Prop
  /-- Sources that are not told apart. -/
  Sources : σ → τ → Prop
  /-- Counters that are not told apart. -/
  Counters : Stats → Stats → Prop
  position : ∀ {s t}, Sources s t → Places (TokenSource.position s) (TokenSource.position t)
  peek : ∀ {s t}, Sources s t →
    Option.Rel (Token.Alike Places) (TokenSource.peek s).1 (TokenSource.peek t).1 ∧
      Sources (TokenSource.peek s).2 (TokenSource.peek t).2
  take : ∀ {s t}, Sources s t →
    Option.Rel (Token.Alike Places) (TokenSource.take s).1 (TokenSource.take t).1 ∧
      Sources (TokenSource.take s).2 (TokenSource.take t).2

namespace Lockstep

variable {σ τ : Type} [TokenSource σ] [TokenSource τ] (L : Lockstep σ τ)

/-- Errors that differ only in where they point, and there only in places that are not told
apart. -/
def Errors (e e' : Error) : Prop :=
  e.placed .start = e'.placed .start ∧ Option.Rel L.Places e.position? e'.position?

/-- Runs that differ only in sources and counters that are not told apart. -/
structure Runs (x : Run σ) (y : Run τ) : Prop where
  source : L.Sources x.source y.source
  sink : x.sink = y.sink
  stats : L.Counters x.stats y.stats

/-- Both actions succeeded or both failed, and nothing is told apart. -/
inductive Results {α β : Type} (R : α → β → Prop) :
    EStateM.Result Error (Run σ) α → EStateM.Result Error (Run τ) β → Prop
  | ok {a : α} {b : β} {x : Run σ} {y : Run τ} (hvalue : R a b) (hruns : L.Runs x y) :
      Results R (.ok a x) (.ok b y)
  | error {e e' : Error} {x : Run σ} {y : Run τ} (herror : L.Errors e e') (hruns : L.Runs x y) :
      Results R (.error e x) (.error e' y)

/-- From runs that are not told apart the two actions come to the same. -/
def InStep {α β : Type} (R : α → β → Prop) (m : Compile σ α) (n : Compile τ β) : Prop :=
  ∀ x y, L.Runs x y → L.Results R (m x) (n y)

/-- Both sides may count `c` and are still not told apart. -/
def Counts (c : Stats) : Prop := ∀ a b, L.Counters a b → L.Counters (a.join c) (b.join c)

variable {L} {α β γ δ : Type} {R : α → β → Prop} {S : γ → δ → Prop} {t u : Token}

/-! ### Primitive actions -/

theorem inStep_pure {a : α} {b : β} (h : R a b) : L.InStep R (pure a) (pure b) :=
  fun _ _ hruns => .ok h hruns

theorem inStep_throw {e e' : Error} (h : L.Errors e e') : L.InStep R (throw e) (throw e') :=
  fun _ _ hruns => .error h hruns

theorem inStep_write (bs : List UInt8) : L.InStep Eq (Compile.write bs) (Compile.write bs) := by
  intro x y hruns
  unfold Compile.write
  rw [hruns.sink]
  by_cases hfits : (y.sink.write bs).1
  · rw [if_pos hfits, if_pos hfits]
    exact .ok rfl ⟨hruns.source, rfl, hruns.stats⟩
  · rw [if_neg hfits, if_neg hfits]
    exact .error ⟨rfl, .none⟩ ⟨hruns.source, rfl, hruns.stats⟩

theorem inStep_record (event event' : Event) :
    L.InStep Eq (Compile.record event) (Compile.record event') :=
  fun _ _ hruns => .ok rfl ⟨hruns.source, hruns.sink, hruns.stats⟩

theorem inStep_tally {f : Stats → Stats} {c : Stats} (hc : L.Counts c) (hf : ∀ s, f s = s.join c) :
    L.InStep Eq (Compile.tally f) (Compile.tally f) := by
  intro x y hruns
  refine .ok rfl ⟨hruns.source, hruns.sink, ?_⟩
  show L.Counters (f x.stats) (f y.stats)
  rw [hf, hf]
  exact hc _ _ hruns.stats

theorem inStep_peek : L.InStep (Option.Rel (Token.Alike L.Places)) Compile.peek Compile.peek := by
  intro x y hruns
  obtain ⟨hfront, hsource⟩ := L.peek hruns.source
  exact .ok hfront ⟨hsource, hruns.sink, hruns.stats⟩

theorem inStep_expect : L.InStep (Token.Alike L.Places) Compile.expect Compile.expect := by
  intro x y hruns
  obtain ⟨hfront, hsource⟩ := L.take hruns.source
  unfold Compile.expect
  rcases htake : TokenSource.take x.source with ⟨a, s⟩
  rcases htake' : TokenSource.take y.source with ⟨b, s'⟩
  rw [htake, htake'] at hfront hsource
  cases hfront with
  | some htokens => exact .ok htokens ⟨hsource, hruns.sink, hruns.stats⟩
  | none =>
      exact .error ⟨rfl, .some (L.position hruns.source)⟩ ⟨hsource, hruns.sink, hruns.stats⟩

/-! ### Sequences and loops

How a run goes on is decided by the kinds and texts of its tokens, and these are the same on both
sides. -/

/-- Two actions come to the same, and so do what follows a success of both. -/
theorem Results.bind {m : Compile σ α} {n : Compile τ β} {f : α → Compile σ γ} {g : β → Compile τ δ}
    {x : Run σ} {y : Run τ} (hm : L.Results R (m x) (n y))
    (hf : ∀ a b x' y', m x = .ok a x' → n y = .ok b y' → R a b → L.Runs x' y' →
      L.Results S (f a x') (g b y')) :
    L.Results S ((m >>= f) x) ((n >>= g) y) := by
  generalize hx : m x = r at hm
  generalize hy : n y = r' at hm
  cases hm with
  | ok hvalue hruns =>
      rw [bind_of_ok hx, bind_of_ok hy]
      exact hf _ _ _ _ hx hy hvalue hruns
  | error herror hruns =>
      rw [bind_of_error hx, bind_of_error hy]
      exact .error herror hruns

theorem InStep.bind {m : Compile σ α} {n : Compile τ β} {f : α → Compile σ γ} {g : β → Compile τ δ}
    (hm : L.InStep R m n) (hf : ∀ a b, R a b → L.InStep S (f a) (g b)) :
    L.InStep S (m >>= f) (n >>= g) :=
  fun x y hruns => (hm x y hruns).bind fun a b x' y' _ _ hvalue hruns' => hf a b hvalue x' y' hruns'

/-- What comes next does not depend on what came out, or only on what is the same on both sides. -/
theorem InStep.bind_eq {m : Compile σ α} {n : Compile τ α} {f : α → Compile σ γ}
    {g : α → Compile τ δ} (hm : L.InStep Eq m n) (hf : ∀ a, L.InStep S (f a) (g a)) :
    L.InStep S (m >>= f) (n >>= g) := by
  refine hm.bind ?_
  rintro a _ rfl
  exact hf a

theorem InStep.map {m : Compile σ α} {n : Compile τ β} {f : α → γ} {g : β → δ} (hm : L.InStep R m n)
    (hf : ∀ a b, R a b → S (f a) (g b)) : L.InStep S (f <$> m) (g <$> n) := by
  show L.InStep S (m >>= fun a => pure (f a)) (n >>= fun b => pure (g b))
  exact hm.bind fun a b hvalue => inStep_pure (hf a b hvalue)

theorem InStep.ite {c : Prop} [Decidable c] {m m' : Compile σ α} {n n' : Compile τ β}
    (h : L.InStep R m n) (h' : L.InStep R m' n') :
    L.InStep R (if c then m else m') (if c then n else n') := by
  by_cases hc : c
  · rw [if_pos hc, if_pos hc]
    exact h
  · rw [if_neg hc, if_neg hc]
    exact h'

theorem inStep_iterate {step : γ → Compile σ (γ ⊕ α)} {step' : γ → Compile τ (γ ⊕ α)}
    {hstep : ∀ c, Advances (step c)} {hstep' : ∀ c, Advances (step' c)}
    (h : ∀ c, L.InStep Eq (step c) (step' c)) (c : γ) :
    L.InStep Eq (iterate step hstep c) (iterate step' hstep' c) := by
  intro x y hruns
  -- the induction is on the rounds of the first run; the second one has as many
  induction c, x using iterateOn.induct step hstep generalizing y with
  | case1 c x e x' hs =>
      rw [iterate_eq_bind, iterate_eq_bind]
      refine (h c x y hruns).bind fun a b x'' y' hx hy hvalue hruns' => ?_
      rw [hs] at hx
      cases hx
  | case2 c x a x' hs =>
      rw [iterate_eq_bind, iterate_eq_bind]
      refine (h c x y hruns).bind fun r r' x'' y' hx hy hvalue hruns' => ?_
      rw [hs] at hx
      cases hx
      cases hvalue
      exact .ok rfl hruns'
  | case3 c x c' x' hs ih =>
      rw [iterate_eq_bind, iterate_eq_bind]
      refine (h c x y hruns).bind fun r r' x'' y' hx hy hvalue hruns' => ?_
      rw [hs] at hx
      cases hx
      cases hvalue
      exact ih y' hruns'

theorem inStep_accept (kind : TokenKind) :
    L.InStep (Token.Alike L.Places) (Compile.accept kind) (Compile.accept kind) := by
  refine inStep_expect.bind fun t u ht => ?_
  rw [ht.kind, ht.text]
  exact .ite (inStep_pure ht) (inStep_throw ⟨rfl, .some ht.place⟩)

/-- What becomes of two compilations that go on in step. -/
theorem InStep.outcome {m : Compile σ Unit} {n : Compile τ Unit} (h : L.InStep Eq m n)
    {x : Run σ} {y : Run τ} (hruns : L.Runs x y) :
    L.Runs (m.outcome x).run (n.outcome y).run ∧
      ((m.outcome x).result = .ok () ∧ (n.outcome y).result = .ok () ∨
        ∃ e e', (m.outcome x).result = .error e ∧ (n.outcome y).result = .error e' ∧
          L.Errors e e') := by
  have hresults := h x y hruns
  unfold Compile.outcome
  generalize m x = r at hresults
  generalize n y = r' at hresults
  cases hresults with
  | ok _ hruns' => exact ⟨hruns', .inl ⟨rfl, rfl⟩⟩
  | error herror hruns' => exact ⟨hruns', .inr ⟨_, _, rfl, rfl, herror⟩⟩

end Lockstep

open Lockstep

variable {σ τ : Type} [TokenSource σ] [TokenSource τ] {L : Lockstep σ τ} {t u : Token}

/-! ### Literals -/

namespace Literal

theorem inStep_integerOf (h : t.Alike L.Places u) : L.InStep Eq (integerOf t) (integerOf u) := by
  unfold integerOf
  rw [h.text]
  cases Text.readUInt32 u.text.toList with
  | ok n => exact inStep_pure rfl
  | error fault => exact inStep_throw ⟨rfl, .some h.place⟩

theorem inStep_singleOf (h : t.Alike L.Places u) (digits : List Char) :
    L.InStep Eq (singleOf t digits) (singleOf u digits) := by
  unfold singleOf
  rw [h.text]
  cases Single.read digits with
  | ok x => exact inStep_pure rfl
  | error fault => exact inStep_throw ⟨rfl, .some h.place⟩

theorem inStep_integer : L.InStep Eq integer integer :=
  (inStep_accept _).bind fun _ _ h => inStep_integerOf h

theorem inStep_number : L.InStep Eq number number := by
  refine inStep_expect.bind fun t u h => ?_
  rw [h.kind, h.text]
  exact .ite (inStep_singleOf h _) (inStep_throw ⟨rfl, .some h.place⟩)

theorem inStep_enumeration (symbols : SymbolTables) :
    L.InStep Eq (enumeration symbols) (enumeration symbols) := by
  refine (inStep_accept _).bind fun t u h => ?_
  rw [h.text]
  cases symbols.enumeration? u.text with
  | some entry => exact inStep_pure rfl
  | none => exact inStep_throw ⟨rfl, .some h.place⟩

theorem inStep_boolean : L.InStep Eq boolean boolean := by
  refine (inStep_accept _).bind fun t u h => ?_
  rw [h.text]
  cases boolean? u.text with
  | some b => exact inStep_pure rfl
  | none => exact inStep_throw ⟨rfl, .some h.place⟩

theorem inStep_broadcast (values : List UInt32) (h : t.Alike L.Places u) :
    L.InStep Eq (broadcast values t) (broadcast values u) := by
  unfold broadcast
  cases Margins.broadcast? values with
  | some m => exact inStep_pure rfl
  | none => exact inStep_throw ⟨rfl, .some h.place⟩

theorem inStep_moreMargins (n : Nat) :
    ∀ values, L.InStep Eq (moreMargins values n) (moreMargins values n) := by
  induction n with
  | zero =>
      intro values
      have hend : L.InStep Eq (Compile.accept .semicolon >>= broadcast values)
          (Compile.accept .semicolon >>= broadcast values) :=
        (inStep_accept _).bind fun _ _ h => inStep_broadcast values h
      refine inStep_peek.bind fun front front' hfront => ?_
      cases hfront with
      | none => exact hend
      | some h =>
          dsimp only
          rw [h.kind]
          exact .ite (inStep_throw ⟨rfl, .some h.place⟩) hend
  | succ n ih =>
      intro values
      refine inStep_expect.bind fun t u h => ?_
      rw [h.kind, h.text]
      exact .ite (inStep_broadcast values h)
        (.ite (inStep_integer.bind_eq fun v => ih (values ++ [v]))
          (inStep_throw ⟨rfl, .some h.place⟩))

theorem inStep_margins : L.InStep Eq margins margins := by
  have hvalues : L.InStep Eq (integer >>= fun v => moreMargins [v] 3)
      (integer >>= fun v => moreMargins [v] 3) :=
    inStep_integer.bind_eq fun v => inStep_moreMargins 3 [v]
  refine inStep_peek.bind fun front front' hfront => ?_
  cases hfront with
  | none => exact hvalues
  | some h =>
      dsimp only
      rw [h.kind]
      exact .ite (inStep_throw ⟨rfl, .some h.place⟩) hvalues

theorem inStep_sizeItem : L.InStep Eq sizeItem sizeItem := by
  refine inStep_expect.bind fun t u h => ?_
  rw [h.kind, h.text]
  cases u.kind with
  | identifier =>
      exact .ite (inStep_pure rfl) (.ite (inStep_pure rfl) (inStep_throw ⟨rfl, .some h.place⟩))
  | integer => exact (inStep_integerOf h).bind_eq fun _ => inStep_pure rfl
  | percentage => exact (inStep_singleOf h _).bind_eq fun _ => inStep_pure rfl
  | _ => exact inStep_throw ⟨rfl, .some h.place⟩

theorem inStep_sizeStep (items : Array SizeItem) :
    L.InStep Eq (sizeStep items) (sizeStep items) := by
  refine inStep_expect.bind fun t u h => ?_
  rw [h.kind, h.text]
  exact .ite (inStep_pure rfl)
    (.ite (inStep_sizeItem.bind_eq fun _ => inStep_pure rfl) (inStep_throw ⟨rfl, .some h.place⟩))

theorem inStep_sizeList : L.InStep Eq sizeList sizeList :=
  inStep_sizeItem.bind_eq fun item => inStep_iterate inStep_sizeStep #[item]

theorem inStep_resource (resources : BindingTable) :
    L.InStep Eq (resource resources) (resource resources) := by
  refine (inStep_accept _).bind fun t u h => ?_
  rw [h.text]
  refine .ite ?_ (inStep_throw ⟨rfl, .some h.place⟩)
  refine (inStep_accept _).bind fun _ _ _ => (inStep_accept _).bind fun name name' hname =>
    (inStep_accept _).bind fun _ _ _ => (inStep_accept _).bind fun _ _ _ => ?_
  rw [hname.text]
  cases resources.get? name'.text with
  | some id => exact inStep_pure rfl
  | none => exact inStep_throw ⟨rfl, .some hname.place⟩

theorem inStep_ended {α : Type} {R : α → α → Prop} {form : Compile σ α} {form' : Compile τ α}
    (h : L.InStep R form form') : L.InStep R (ended form) (ended form') :=
  h.bind fun _ _ hvalue => (inStep_accept _).bind fun _ _ _ => inStep_pure hvalue

theorem inStep_parse (symbols : SymbolTables) (resources : BindingTable) (type : ValueType) :
    L.InStep Eq (parse symbols resources type) (parse symbols resources type) := by
  cases type with
  | integer => exact (inStep_ended inStep_integer).map fun _ _ h => congrArg _ h
  | number => exact (inStep_ended inStep_number).map fun _ _ h => congrArg _ h
  | enumeration => exact (inStep_ended (inStep_enumeration symbols)).map fun _ _ h => congrArg _ h
  | string => exact (inStep_ended (inStep_accept _)).map fun _ _ h => congrArg Value.string h.text
  | boolean => exact (inStep_ended inStep_boolean).map fun _ _ h => congrArg _ h
  | margins => exact inStep_margins.map fun _ _ h => congrArg _ h
  | sizeList => exact inStep_sizeList.map fun _ _ h => congrArg _ h
  | resource => exact (inStep_resource resources).map fun _ _ h => congrArg _ h

theorem inStep_encode (symbols : SymbolTables) (resources : BindingTable) (type : ValueType) :
    L.InStep Eq (encode symbols resources type) (encode symbols resources type) := by
  refine (inStep_parse symbols resources type).bind_eq fun v => ?_
  have hwrite : L.InStep Eq (writeValue v) (writeValue v) :=
    .ite (inStep_write _) (inStep_throw ⟨rfl, .none⟩)
  exact hwrite.bind_eq fun _ => inStep_pure rfl

end Literal

/-! ### Documents -/

namespace Document

variable (context : Context)

theorem inStep_bound (hcounts : L.Counts ⟨0, 0, 1, 0⟩) (entry : PropertyEntry)
    (name name' : Token) : L.InStep Eq (bound context entry name) (bound context entry name') := by
  refine (inStep_write _).bind_eq fun _ => (inStep_accept _).bind fun _ _ _ =>
    (inStep_accept _).bind fun _ _ _ => (inStep_accept _).bind fun source source' hsource =>
      (inStep_accept _).bind fun _ _ _ => (inStep_accept _).bind fun _ _ _ => ?_
  rw [hsource.text]
  cases context.bindings.properties.get? source'.text with
  | some id =>
      exact (inStep_write _).bind_eq fun _ => (inStep_record _ _).bind_eq fun _ =>
        inStep_tally hcounts fun s => by simp [Stats.join]
  | none => exact inStep_throw ⟨rfl, .some hsource.place⟩

theorem inStep_literal (hcounts : L.Counts ⟨0, 1, 0, 0⟩) (entry : PropertyEntry)
    (name name' : Token) : L.InStep Eq (literal context entry name) (literal context entry name') :=
  (inStep_write _).bind_eq fun _ => (Literal.inStep_encode _ _ _).bind_eq fun _ =>
    (inStep_record _ _).bind_eq fun _ => inStep_tally hcounts fun s => by simp [Stats.join]

theorem inStep_property (hbound : L.Counts ⟨0, 0, 1, 0⟩) (hliteral : L.Counts ⟨0, 1, 0, 0⟩)
    (entry : PropertyEntry) (name name' : Token) :
    L.InStep Eq (property context entry name) (property context entry name') := by
  refine (inStep_accept _).bind fun _ _ _ => inStep_peek.bind fun front front' hfront => ?_
  have hword : front.any (·.isWord "bind") = front'.any (·.isWord "bind") := by
    cases hfront with
    | none => rfl
    | some h => simp [Token.isWord, h.kind, h.text]
  rw [hword]
  exact .ite (inStep_bound context hbound entry name name')
    (inStep_literal context hliteral entry name name')

theorem inStep_enterWidget {depth : Nat} (hcounts : L.Counts ⟨1, 0, 0, depth⟩) {name name' : Token}
    (hname : name.Alike L.Places name') :
    L.InStep Eq (enterWidget context depth name) (enterWidget context depth name') := by
  refine (inStep_accept _).bind fun _ _ _ => ?_
  rw [hname.text]
  cases context.symbols.widget? name'.text with
  | some entry =>
      exact (inStep_write _).bind_eq fun _ => (inStep_record _ _).bind_eq fun _ =>
        inStep_tally hcounts fun s => by simp [Stats.join]
  | none => exact inStep_throw ⟨rfl, .some hname.place⟩

theorem inStep_openWidget {depth : Nat} (hcounts : L.Counts ⟨1, 0, 0, depth⟩) {name name' : Token}
    (hname : name.Alike L.Places name') :
    L.InStep Eq (openWidget context depth name) (openWidget context depth name') :=
  .ite (inStep_throw ⟨rfl, .none⟩) (inStep_enterWidget context hcounts hname)

omit context in
theorem inStep_endProperties (here : Section) :
    L.InStep Eq (endProperties here) (endProperties here) := by
  cases here with
  | properties => exact inStep_write _
  | children => exact inStep_pure rfl

theorem inStep_bodyItem (hcounts : ∀ c, L.Counts c) (here : Section) (outer : List Section) :
    L.InStep Eq (bodyItem context here outer) (bodyItem context here outer) := by
  refine inStep_expect.bind fun t u h => ?_
  rw [h.kind, h.text]
  cases u.kind with
  | closeBrace =>
      exact (inStep_endProperties here).bind_eq fun _ => (inStep_write _).bind_eq fun _ =>
        inStep_pure rfl
  | identifier =>
      dsimp only
      cases context.symbols.property? u.text with
      | some entry =>
          cases here with
          | children => exact inStep_throw ⟨rfl, .some h.place⟩
          | properties =>
              exact (inStep_property context (hcounts _) (hcounts _) entry t u).bind_eq fun _ =>
                inStep_pure rfl
      | none =>
          dsimp only
          cases context.symbols.widget? u.text with
          | some _ =>
              exact (inStep_endProperties here).bind_eq fun _ =>
                (inStep_openWidget context (hcounts _) h).bind_eq fun _ => inStep_pure rfl
          | none =>
              refine inStep_peek.bind fun front front' hfront => ?_
              have hkind : memberKind front = memberKind front' := by
                cases hfront with
                | none => rfl
                | some hnext => simp [memberKind, hnext.kind]
              rw [hkind]
              exact inStep_throw ⟨rfl, .some h.place⟩
  | _ => exact inStep_throw ⟨rfl, .some h.place⟩

/-- **Documents are compiled in step**, whatever may be counted on both sides. -/
theorem inStep_compile (hcounts : ∀ c, L.Counts c) :
    L.InStep Eq (compile context) (compile context) := by
  have hbody : ∀ sections, L.InStep Eq (bodyStep context sections) (bodyStep context sections) :=
    fun sections => (inStep_bodyItem context hcounts sections.1 sections.2).map fun _ _ h =>
      congrArg goOn h
  refine (inStep_accept _).bind fun name name' hname =>
    (inStep_openWidget context (hcounts _) hname).bind_eq fun _ =>
      (inStep_iterate hbody _).bind_eq fun _ => inStep_peek.bind fun front front' hfront => ?_
  cases hfront with
  | none => exact inStep_pure rfl
  | some h =>
      dsimp only
      rw [h.text]
      exact inStep_throw ⟨rfl, .some h.place⟩

end Document

end WidgetLayout
