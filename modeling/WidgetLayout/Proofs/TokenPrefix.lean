/-
What compiles is prefix-free, and tokens that are missing are noticed as the end of input.

With the beginning of a queue of tokens a compilation does what it does with all of it until the
tokens run out (`Continues`).  Where it only takes tokens that is plain.  Where it looks ahead it
may take another path if there is nothing to see: it holds an unseen value for a literal and not for
a binding, and it does not see the comma or the semicolon that it would refuse.  Each of these paths
goes on to take a token, after writing at most the one byte that the other path writes too
(`NeedsToken`), and so it ends there.
-/
import WidgetLayout.Proofs.BoundedSink
import WidgetLayout.Proofs.Truncation

namespace WidgetLayout

open WidgetLayout.Progress

/-- A run with more tokens at the end of its queue. -/
def Run.followed (more : List Token) (run : Run (List Token)) : Run (List Token) :=
  { run with source := run.source ++ more }

variable {more : List Token}

/-! ### Actions that take tokens -/

namespace Compile

variable {α β : Type}

/-- The tokens have run out: that is the error, and none is left. -/
def RanOut (e : Error) (run : Run (List Token)) : Prop :=
  e = .unexpectedEnd ⟨0, 0⟩ ∧ run.source = []

/-- An action does the same with more tokens, or those that there are run out, or it fails with
both. -/
abbrev Extends (more : List Token) (m : Compile (List Token) α) : Prop :=
  Continues (Run.followed more) RanOut m

theorem write_followed (bs : List UInt8) (run : Run (List Token)) :
    write bs (run.followed more) = resume (Run.followed more) (write bs run) := by
  have hsink : (run.followed more).sink = run.sink := rfl
  unfold write
  rw [hsink]
  by_cases hfits : (run.sink.write bs).1
  · simp only [if_pos hfits]
    rfl
  · simp only [if_neg hfits]
    rfl

theorem extends_write (bs : List UInt8) : Extends more (write bs) := by
  intro run
  rw [write_followed]
  exact .same _

theorem extends_record (event : Event) : Extends more (record event) :=
  fun run => .same (record event run)

theorem extends_tally (f : Stats → Stats) : Extends more (tally f) := fun run => .same (tally f run)

theorem extends_expect : Extends more expect := by
  intro run
  obtain ⟨source, sink, stats, trace⟩ := run
  cases source with
  | nil => exact .starved ⟨rfl, rfl⟩ _
  | cons t rest => exact .same (expect ⟨t :: rest, sink, stats, trace⟩)

theorem extends_accept (kind : TokenKind) : Extends more (accept kind) :=
  extends_expect.bind fun t => .ite (continues_pure t) (continues_throw _)

/-! ### Actions that look ahead

This is where a missing token could go unnoticed: an action that sees none may go another way.  It
has to miss a token on that way, too. -/

/-- Where there is no token the action fails for want of one. -/
def NeedsToken (m : Compile (List Token) α) : Prop :=
  ∀ run, run.source = [] → ∃ e run', m run = .error e run' ∧ RanOut e run'

theorem needsToken_expect : NeedsToken expect := by
  intro run hrun
  obtain ⟨source, sink, stats, trace⟩ := run
  obtain rfl : source = [] := hrun
  exact ⟨_, _, rfl, rfl, rfl⟩

theorem NeedsToken.bind {m : Compile (List Token) α} (h : NeedsToken m)
    (f : α → Compile (List Token) β) : NeedsToken (m >>= f) := by
  intro run hrun
  obtain ⟨e, run', hm, hout⟩ := h run hrun
  exact ⟨e, run', bind_of_error hm, hout⟩

theorem NeedsToken.map {m : Compile (List Token) α} (h : NeedsToken m) (f : α → β) :
    NeedsToken (f <$> m) :=
  h.bind fun a => pure (f a)

theorem needsToken_accept (kind : TokenKind) : NeedsToken (accept kind) := needsToken_expect.bind _

theorem needsToken_peek_bind {f : Option Token → Compile (List Token) α} (h : NeedsToken (f none)) :
    NeedsToken (peek >>= f) := by
  intro run hrun
  obtain ⟨source, sink, stats, trace⟩ := run
  obtain rfl : source = [] := hrun
  exact h ⟨[], sink, stats, trace⟩ rfl

/-- Looking ahead makes a difference only where there is nothing to see. -/
theorem extends_peek_bind {f : Option Token → Compile (List Token) α}
    (hf : ∀ front, Extends more (f front)) (hend : ∀ run t, run.source = [] →
      Truncated (Run.followed more) RanOut (f none run) (f (some t) (run.followed more))) :
    Extends more (peek >>= f) := by
  intro run
  obtain ⟨source, sink, stats, trace⟩ := run
  cases source with
  | cons t rest => exact hf (some t) ⟨t :: rest, sink, stats, trace⟩
  | nil =>
      cases more with
      | nil => exact hf none ⟨[], sink, stats, trace⟩
      | cons t more => exact hend ⟨[], sink, stats, trace⟩ t rfl

theorem extends_peek_bind_of_needsToken {f : Option Token → Compile (List Token) α}
    (hf : ∀ front, Extends more (f front)) (hnone : NeedsToken (f none)) :
    Extends more (peek >>= f) := by
  refine extends_peek_bind hf fun run t hrun => ?_
  obtain ⟨e, run', heq, hout⟩ := hnone run hrun
  rw [heq]
  exact .starved hout _

/-- A byte is written whatever it is, or it is not: then a token is missing, or both paths fail. -/
theorem truncated_byte_bind {b b' : UInt8} {f f' : Unit → Compile (List Token) α}
    {run : Run (List Token)} (hrun : run.source = []) (hf : NeedsToken (f ())) :
    Truncated (Run.followed more) RanOut ((write [b] >>= f) run)
      ((write [b'] >>= f') (run.followed more)) := by
  by_cases hroom : run.sink.room 1 = 1
  · have hwrite : write [b] run = .ok () { run with sink := (run.sink.write [b]).2 } := by
      simp [write, Sink.write, hroom]
    obtain ⟨e, run', heq, hout⟩ := hf { run with sink := (run.sink.write [b]).2 } hrun
    rw [bind_of_ok hwrite, heq]
    exact .starved hout _
  · have hwrite : write [b] run =
        .error (.output .sinkFull) { run with sink := (run.sink.write [b]).2 } := by
      simp [write, Sink.write, hroom]
    have hwrite' : write [b'] (run.followed more) = .error (.output .sinkFull)
        { run.followed more with sink := (run.sink.write [b']).2 } := by
      simp [write, Sink.write, Run.followed, hroom]
    rw [bind_of_error hwrite, bind_of_error hwrite']
    exact .fails _ _ _ _

end Compile

open WidgetLayout.Compile

/-! ### Literals -/

namespace Literal

theorem extends_integerOf (t : Token) : Extends more (integerOf t) := by
  unfold integerOf
  cases Text.readUInt32 t.text.toList with
  | ok n => exact continues_pure n
  | error fault => exact continues_throw _

theorem extends_singleOf (t : Token) (digits : List Char) : Extends more (singleOf t digits) := by
  unfold singleOf
  cases Single.read digits with
  | ok x => exact continues_pure x
  | error fault => exact continues_throw _

theorem extends_integer : Extends more integer := (extends_accept _).bind extends_integerOf

theorem extends_number : Extends more number :=
  extends_expect.bind fun t => .ite (extends_singleOf t _) (continues_throw _)

theorem extends_enumeration (symbols : SymbolTables) : Extends more (enumeration symbols) := by
  refine (extends_accept _).bind fun t => ?_
  cases symbols.enumeration? t.text with
  | some entry => exact continues_pure entry.value
  | none => exact continues_throw _

theorem extends_boolean : Extends more boolean := by
  refine (extends_accept _).bind fun t => ?_
  cases boolean? t.text with
  | some b => exact continues_pure b
  | none => exact continues_throw _

theorem extends_broadcast (values : List UInt32) (t : Token) :
    Extends more (broadcast values t) := by
  unfold broadcast
  cases Margins.broadcast? values with
  | some m => exact continues_pure m
  | none => exact continues_throw _

theorem extends_moreMargins (n : Nat) :
    ∀ values : List UInt32, Extends more (moreMargins values n) := by
  induction n with
  | zero =>
      intro values
      have hend : Extends more (accept .semicolon >>= broadcast values) :=
        (extends_accept _).bind (extends_broadcast values)
      refine extends_peek_bind_of_needsToken (fun front => ?_) ((needsToken_accept _).bind _)
      cases front with
      | some t => exact .ite (continues_throw _) hend
      | none => exact hend
  | succ n ih =>
      intro values
      exact extends_expect.bind fun t => .ite (extends_broadcast values t)
        (.ite (extends_integer.bind fun v => ih (values ++ [v])) (continues_throw _))

theorem needsToken_integer : NeedsToken integer := (needsToken_accept _).bind _

theorem extends_margins : Extends more margins := by
  have hvalues : Extends more (integer >>= fun v => moreMargins [v] 3) :=
    extends_integer.bind fun v => extends_moreMargins 3 [v]
  refine extends_peek_bind_of_needsToken (fun front => ?_) (needsToken_integer.bind _)
  cases front with
  | some t => exact .ite (continues_throw _) hvalues
  | none => exact hvalues

theorem extends_sizeItem : Extends more sizeItem := by
  refine extends_expect.bind fun t => ?_
  cases t.kind with
  | identifier => exact .ite (continues_pure _) (.ite (continues_pure _) (continues_throw _))
  | integer => exact (extends_integerOf t).map _
  | percentage => exact (extends_singleOf t _).map _
  | _ => exact continues_throw _

theorem extends_sizeStep (items : Array SizeItem) : Extends more (sizeStep items) :=
  extends_expect.bind fun _ =>
    .ite (continues_pure _) (.ite (extends_sizeItem.map _) (continues_throw _))

theorem extends_sizeList : Extends more sizeList :=
  extends_sizeItem.bind fun item => continues_iterate extends_sizeStep #[item]

theorem extends_resource (resources : BindingTable) : Extends more (resource resources) := by
  refine (extends_accept _).bind fun word => .ite ((extends_accept _).bind fun _ =>
    (extends_accept _).bind fun name => (extends_accept _).bind fun _ =>
      (extends_accept _).bind fun _ => ?_) (continues_throw _)
  cases resources.get? name.text with
  | some id => exact continues_pure id
  | none => exact continues_throw _

theorem extends_ended {α : Type} {form : Compile (List Token) α} (h : Extends more form) :
    Extends more (ended form) :=
  h.bind fun a => (extends_accept _).map fun _ => a

theorem extends_parse (symbols : SymbolTables) (resources : BindingTable) (type : ValueType) :
    Extends more (parse symbols resources type) := by
  cases type with
  | integer => exact (extends_ended extends_integer).map _
  | number => exact (extends_ended extends_number).map _
  | enumeration => exact (extends_ended (extends_enumeration symbols)).map _
  | string => exact (extends_ended (extends_accept _)).map _
  | boolean => exact (extends_ended extends_boolean).map _
  | margins => exact extends_margins.map _
  | sizeList => exact extends_sizeList.map _
  | resource => exact (extends_resource resources).map _

/-- Every form of literal begins with a token. -/
theorem needsToken_parse (symbols : SymbolTables) (resources : BindingTable) (type : ValueType) :
    NeedsToken (parse symbols resources type) := by
  cases type with
  | integer => exact (needsToken_integer.bind _).map _
  | number => exact ((needsToken_expect.bind _).bind _).map _
  | enumeration => exact (((needsToken_accept _).bind _).bind _).map _
  | string => exact ((needsToken_accept _).bind _).map _
  | boolean => exact (((needsToken_accept _).bind _).bind _).map _
  | margins => exact (needsToken_peek_bind (needsToken_integer.bind _)).map _
  | sizeList => exact ((needsToken_expect.bind _).bind _).map _
  | resource => exact ((needsToken_accept _).bind _).map _

theorem extends_writeValue (v : Value) : Extends more (writeValue v) :=
  .ite (extends_write _) (continues_throw _)

theorem extends_encode (symbols : SymbolTables) (resources : BindingTable) (type : ValueType) :
    Extends more (encode symbols resources type) :=
  (extends_parse symbols resources type).bind fun v => (extends_writeValue v).map fun _ => v

end Literal

/-! ### Documents -/

namespace Document

variable (context : Context)

theorem extends_bound (entry : PropertyEntry) (name : Token) :
    Extends more (bound context entry name) := by
  refine (extends_write _).bind fun _ => (extends_accept _).bind fun _ =>
    (extends_accept _).bind fun _ => (extends_accept _).bind fun source =>
      (extends_accept _).bind fun _ => (extends_accept _).bind fun _ => ?_
  cases context.bindings.properties.get? source.text with
  | some id =>
      exact (extends_write _).bind fun _ => (extends_record _).bind fun _ => extends_tally _
  | none => exact continues_throw _

theorem extends_literal (entry : PropertyEntry) (name : Token) :
    Extends more (literal context entry name) :=
  (extends_write _).bind fun _ => (Literal.extends_encode _ _ _).bind fun _ =>
    (extends_record _).bind fun _ => extends_tally _

/-- Where there is nothing to see a value is held for a literal, of which the first token is then
missing. -/
theorem extends_property (entry : PropertyEntry) (name : Token) :
    Extends more (property context entry name) := by
  refine (extends_accept _).bind fun _ => extends_peek_bind (fun front => ?_) fun run t hrun => ?_
  · exact .ite (extends_bound context entry name) (extends_literal context entry name)
  · have hliteral :
        NeedsToken (Literal.encode context.symbols context.bindings.resources entry.type) :=
      (Literal.needsToken_parse _ _ _).bind _
    by_cases hbind : (some t).any (·.isWord "bind")
    · rw [if_pos hbind]
      exact truncated_byte_bind hrun (hliteral.bind _)
    · rw [if_neg hbind]
      exact truncated_byte_bind hrun (hliteral.bind _)

theorem extends_openWidget (depth : Nat) (name : Token) :
    Extends more (openWidget context depth name) := by
  refine .ite (continues_throw _) ((extends_accept _).bind fun _ => ?_)
  cases context.symbols.widget? name.text with
  | some entry =>
      exact (extends_write _).bind fun _ => (extends_record _).bind fun _ => extends_tally _
  | none => exact continues_throw _

omit context in
theorem extends_endProperties (here : Section) : Extends more (endProperties here) := by
  cases here with
  | properties => exact extends_write _
  | children => exact continues_pure ()

theorem extends_bodyItem (here : Section) (outer : List Section) :
    Extends more (bodyItem context here outer) := by
  refine extends_expect.bind fun t => ?_
  cases t.kind with
  | closeBrace =>
      exact (extends_endProperties here).bind fun _ => (extends_write _).bind fun _ =>
        continues_pure outer
  | identifier =>
      cases context.symbols.property? t.text with
      | some entry =>
          cases here with
          | children => exact continues_throw _
          | properties => exact (extends_property context entry t).map _
      | none =>
          cases context.symbols.widget? t.text with
          | some _ =>
              exact (extends_endProperties here).bind fun _ =>
                (extends_openWidget context _ t).map _
          | none =>
              -- an unknown name is one whatever follows it
              exact extends_peek_bind (fun _ => continues_throw _) fun _ _ _ => .fails _ _ _ _
  | _ => exact continues_throw _

theorem extends_compileTree (more : List Token) : Extends more (compileTree context) :=
  (extends_accept _).bind fun name => (extends_openWidget context 1 name).bind fun _ =>
    continues_iterate (fun state => (extends_bodyItem context state.1 state.2).map goOn) _

variable {context} {q : List Token} {capacity : Option Nat}

/-- What compiles is a tree and nothing after it. -/
theorem compileTree_of_result_ok (h : (compileQueue context q capacity).result = .ok ()) :
    compileTree context (.start q ⟨#[], capacity⟩) = .ok () (compileQueue context q capacity).run ∧
      (compileQueue context q capacity).run.source = [] := by
  have hrun : (compileTree context >>= fun _ => atEnd) (.start q ⟨#[], capacity⟩) =
      .ok () (compileQueue context q capacity).run := by
    rw [← compile_eq]
    exact outcome_result_iff.mp h
  obtain ⟨⟨⟩, run, htree, hend⟩ := bind_eq_ok_iff.mp hrun
  obtain ⟨hnil, heq⟩ := atEnd_eq_ok_iff.mp hend
  rw [takeAll_list] at hnil
  have heq : (compileQueue context q capacity).run = run := heq
  rw [heq]
  exact ⟨htree, hnil⟩

/-- Missing tokens are missed within the tree. -/
theorem compileQueue_of_append {p r : List Token}
    (h : (compileQueue context (p ++ r) capacity).result = .ok ()) (hr : r ≠ []) :
    (compileQueue context p capacity).result = .error (.unexpectedEnd ⟨0, 0⟩) ∧
      (compileQueue context p capacity).run.source = [] := by
  obtain ⟨htree, hnil⟩ := compileTree_of_result_ok h
  have hcut := extends_compileTree context r (.start p ⟨#[], capacity⟩)
  have hall : Run.followed r (.start p ⟨#[], capacity⟩) = .start (p ++ r) ⟨#[], capacity⟩ := rfl
  rw [hall, htree] at hcut
  rcases hcut.to_ok with ⟨run, -, hrun⟩ | ⟨e, run, herror, rfl, hrest⟩
  · -- all of the tree cannot be in the beginning: then the rest would be left
    rw [hrun] at hnil
    exact absurd (List.append_eq_nil_iff.mp hnil).2 hr
  · have hcompile :
        compile context (.start p ⟨#[], capacity⟩) = .error (.unexpectedEnd ⟨0, 0⟩) run := by
      rw [compile_eq]
      exact bind_of_error herror
    have houtcome : compileQueue context p capacity = _ := outcome_of_error hcompile
    rw [houtcome]
    exact ⟨rfl, hrest⟩

/-- A token after the tree is found there, and left. -/
theorem compileQueue_append (h : (compileQueue context q capacity).result = .ok ()) (t : Token)
    (ts : List Token) :
    compileQueue context (q ++ t :: ts) capacity =
      ⟨{ (compileQueue context q capacity).run with source := t :: ts },
        .error (.unexpectedToken t.position .endOfInput t.text)⟩ := by
  obtain ⟨htree, hnil⟩ := compileTree_of_result_ok h
  have hmore := extends_compileTree context (t :: ts) (.start q ⟨#[], capacity⟩)
  rw [htree] at hmore
  have htree' : compileTree context (.start (q ++ t :: ts) ⟨#[], capacity⟩) =
      .ok () { (compileQueue context q capacity).run with source := t :: ts } := by
    have heq := hmore.of_ok
    unfold Run.followed at heq
    rw [hnil] at heq
    exact heq
  refine outcome_of_error ?_
  rw [compile_eq, bind_of_ok htree']
  rfl

/-- **The queues of tokens that compile are prefix-free, and what is cut short is reported as
that.**  With less than all of its tokens a document runs into the end of input, and no token is
left unread.  With more tokens it is refused for the first one too many, which is left; what was
written, counted and recorded until then is that of the document. -/
theorem compile_prefix_free (context : Context) (q : List Token) (capacity : Option Nat)
    (h : (compileQueue context q capacity).result = .ok ()) :
    (∀ p, p <+: q → p ≠ q →
      (compileQueue context p capacity).result = .error (.unexpectedEnd ⟨0, 0⟩) ∧
      (compileQueue context p capacity).run.source = []) ∧
    ∀ t ts, (compileQueue context (q ++ t :: ts) capacity).result =
        .error (.unexpectedToken t.position .endOfInput t.text) ∧
      (compileQueue context (q ++ t :: ts) capacity).run =
        { (compileQueue context q capacity).run with source := t :: ts } := by
  refine ⟨?_, ?_⟩
  · rintro p ⟨r, rfl⟩ hne
    have hr : r ≠ [] := fun hr => hne (by rw [hr, List.append_nil])
    exact compileQueue_of_append h hr
  · intro t ts
    rw [compileQueue_append h t ts]
    exact ⟨rfl, rfl⟩

/-- A panel with a margin, whose value looks ahead twice. -/
def panelWithMargin : List Token := (tokenize "Panel \x7b margin: 4; \x7d").dropLast

/-- Cut before the value or after it, the panel is cut short; another brace after it is one too
many. -/
theorem compile_prefix_free_panel :
    (compileQueue ⟨.shipped, .empty, 32⟩ panelWithMargin none).result = .ok () ∧
      (∀ n < 7, (compileQueue ⟨.shipped, .empty, 32⟩ (panelWithMargin.take n) none).result =
        .error (.unexpectedEnd ⟨0, 0⟩)) ∧
      (compileQueue ⟨.shipped, .empty, 32⟩ (panelWithMargin ++ [⟨.closeBrace, "\x7d", ⟨2, 1⟩⟩])
        none).result = .error (.unexpectedToken ⟨2, 1⟩ .endOfInput "\x7d") := by
  have hok : (compileQueue ⟨.shipped, .empty, 32⟩ panelWithMargin none).result = .ok () := by
    decide +kernel
  have hlength : panelWithMargin.length = 7 := by decide +kernel
  obtain ⟨hless, hmore⟩ := compile_prefix_free ⟨.shipped, .empty, 32⟩ panelWithMargin none hok
  refine ⟨hok, fun n hn => (hless _ (List.take_prefix n _) fun heq => ?_).1, (hmore _ []).1⟩
  have hshort := congrArg List.length heq
  rw [List.length_take, hlength] at hshort
  omega

end Document

end WidgetLayout
