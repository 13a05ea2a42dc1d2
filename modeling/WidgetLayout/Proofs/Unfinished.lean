/-
What a failed compilation leaves behind is no document, unless all that failed is its end.

Bytes are written before what comes after them is read, so a failure leaves some behind: the items
of the open widgets up to the one that failed, and of that one at most a byte.  The decoder reads
these items with the same widgets open as the compiler had (`chain_of_chain`), and then it misses
the rest (`Starves`).  Only where something follows a whole document is there nothing to miss.
-/
import WidgetLayout.Proofs.BoundedSink
import WidgetLayout.Proofs.RoundTrip

namespace WidgetLayout

open WidgetLayout.Progress

/-- The error that something stands where the input should end. -/
def Error.IsTrailing (e : Error) : Prop :=
  ∃ position found, e = .unexpectedToken position .endOfInput found

/-! ### Bytes that end early

A decoder with widgets open and no bytes left fails, and so it does behind one byte more, since no
property is a single byte. -/

namespace Decode

variable {symbols : SymbolTables}

/-- Reading on from open widgets fails on account of the bytes if nothing but these lies ahead. -/
def Starves (symbols : SymbolTables) (state : Open) (bs : List UInt8) : Prop :=
  ∀ offset, ∃ fault c,
    iterateOn (decodeStep symbols) (advances_decodeStep symbols) state ⟨offset, bs⟩ =
    .error (.invalidFormat (.bytes fault)) c

theorem Starves.of_chain {state state' : Open} {bs bs' : List UInt8}
    (hchain : Chain Wire.tape (Step symbols) state bs state') (h : Starves symbols state' bs') :
    Starves symbols state (bs ++ bs') := by
  intro offset
  have hmoves : Wire.tape.Moves (Wire.tape.view ⟨offset, bs ++ bs'⟩) bs ⟨offset + bs.length, bs'⟩ :=
    ⟨rfl, rfl⟩
  obtain ⟨c, heq, -, hc⟩ := iterateOn_of_chain (reads_decodeStep symbols) hchain trivial hmoves
  obtain rfl : c = ⟨offset + bs.length, bs'⟩ := hc
  rw [heq]
  exact h _

theorem starves_nil (state : Open) : Starves symbols state [] := by
  intro offset
  exact ⟨_, _, iterateOn_of_error rfl⟩

theorem value_of_nil (type : ValueType) (offset : Nat) :
    ∃ fault c, value type ⟨offset, []⟩ = .error (.invalidFormat (.bytes fault)) c := by
  cases type <;> exact ⟨_, _, rfl⟩

/-- No property is a single byte. -/
theorem property_of_nil (symbols : SymbolTables) (raw : UInt8) (offset : Nat) :
    ∃ fault c, property symbols raw ⟨offset, []⟩ = .error (.invalidFormat (.bytes fault)) c := by
  unfold property
  cases symbols.propertyById? (raw &&& 0x7f) with
  | none => exact ⟨_, _, rfl⟩
  | some entry =>
      by_cases hflag : raw &&& bindingFlag = 0
      · obtain ⟨fault, c, hvalue⟩ := value_of_nil entry.type offset
        simp only [if_pos hflag]
        exact ⟨fault, c, bind_of_error hvalue⟩
      · simp only [if_neg hflag]
        exact ⟨_, _, rfl⟩

theorem starves_byte (here : Frame) (outer : List Frame) (b : UInt8) :
    Starves symbols ⟨false, here, outer⟩ [b] := by
  by_cases hb : b = terminator
  · rw [hb]
    exact .of_chain (Chain.single .endProperties) (starves_nil _)
  · intro offset
    have htag : tag ⟨offset, [b]⟩ = .ok b ⟨offset + 1, []⟩ := rfl
    obtain ⟨fault, c, hproperty⟩ := property_of_nil symbols b (offset + 1)
    refine ⟨fault, c, iterateOn_of_error ?_⟩
    unfold decodeStep
    rw [bind_of_ok htag]
    simp only [if_neg hb]
    exact bind_of_error hproperty

theorem decode_nil : ∃ fault, decode symbols [] = .error (.invalidFormat (.bytes fault)) := ⟨_, rfl⟩

theorem decode_of_starves {t : UInt8} {entry : WidgetEntry} {bs : List UInt8}
    (hentry : symbols.widgetByTag? t = some entry)
    (h : Starves symbols ⟨false, ⟨entry.name, t, #[], #[]⟩, []⟩ bs) :
    ∃ fault, decode symbols (t :: bs) = .error (.invalidFormat (.bytes fault)) := by
  obtain ⟨fault, c, hiterate⟩ := h 1
  refine ⟨fault, ?_⟩
  unfold decode
  rw [root_cons hentry, hiterate]

end Decode

/-! ### What an action has written when it fails

What a failed item leaves behind must not be taken for anything.  It is not if it is too short. -/

namespace Compile

variable {σ α β : Type} {n : Nat}

/-- Where the action fails without a bound it has written fewer than `n` bytes; with `n = 0` it
never fails. -/
def Stops (n : Nat) (m : Compile σ α) : Prop :=
  ∀ (run : Run σ) (e : Error) (run' : Run σ), run.sink.capacity = none → m run = .error e run' →
    ∃ q : List UInt8, q.length < n ∧ run'.written = run.written ++ q

theorem stops_pure (a : α) : Stops n (pure a : Compile σ α) := by
  intro run e run' _ h
  cases h

theorem stops_throw (e : Error) : Stops (n + 1) (throw e : Compile σ α) := by
  intro run e' run' _ h
  obtain ⟨-, rfl⟩ := EStateM.Result.error.inj h
  exact ⟨[], Nat.succ_pos n, (List.append_nil _).symm⟩

theorem stops_write (bs : List UInt8) : Stops n (write bs : Compile σ Unit) := by
  intro run e run' hrun h
  rw [write_of_unbounded bs hrun] at h
  cases h

/-- A byte is written before anything fails. -/
theorem stops_byte_bind (b : UInt8) {f : Unit → Compile σ β} (hf : ∀ u, Stops n (f u)) :
    Stops (n + 1) (write [b] >>= f) := by
  intro run e run' hrun h
  rw [bind_of_ok (write_of_unbounded [b] hrun)] at h
  obtain ⟨q, hq, hwritten⟩ :=
    hf () { run with sink := { run.sink with bytes := run.sink.bytes ++ [b] } } e run' hrun h
  refine ⟨b :: q, Nat.succ_lt_succ hq, ?_⟩
  rw [hwritten]
  simp [Run.written]

variable [TokenSource σ]

/-- An action that never writes leaves the sink alone, however it ends. -/
theorem Composed.sink_eq {E : Error → Prop} {m : OnAny α} (h : Composed False E m) (run : Run σ) :
    (left (m σ run)).sink = run.sink :=
  h.sink_rel (R := fun s s' => s' = s) (fun _ => rfl) (fun h h' => h'.trans h)
    (fun hw => hw.elim) run

theorem Composed.stops {m : OnAny α} (h : Composed False Error.Inner m) : Stops (n + 1) (m σ) := by
  intro run e run' _ hm
  have hsink : run'.sink = run.sink := by
    have hsink := h.sink_eq run
    rwa [hm] at hsink
  exact ⟨[], Nat.succ_pos n, by rw [List.append_nil, Run.written_congr hsink]⟩

/-- An action that writes nothing may come before another one. -/
theorem Composed.stops_bind {m : OnAny α} {f : α → Compile σ β} (hm : Composed False Error.Inner m)
    (hf : ∀ a, Stops (n + 1) (f a)) : Stops (n + 1) (m σ >>= f) := by
  intro run e run' hrun h
  rcases bind_eq_error_iff.mp h with h | ⟨a, run₁, h₁, h₂⟩
  · exact hm.stops run e run' hrun h
  · have hsink : run₁.sink = run.sink := by
      have hsink := hm.sink_eq run
      rwa [h₁] at hsink
    rw [← Run.written_congr hsink]
    exact hf a run₁ e run' (by rw [hsink]; exact hrun) h₂

/-- An action that never fails may come after another one. -/
theorem Stops.bind {m : OnAny α} {f : α → Compile σ β} (hstops : Stops n (m σ))
    (hm : Composed True Error.Inner m) (hf : ∀ a, Stops 0 (f a)) : Stops n (m σ >>= f) := by
  intro run e run' hrun h
  rcases bind_eq_error_iff.mp h with h | ⟨a, run₁, h₁, h₂⟩
  · exact hstops run e run' hrun h
  · have hrun₁ := (hm.streams run hrun).unbounded
    rw [h₁] at hrun₁
    obtain ⟨q, hq, -⟩ := hf a run₁ e run' hrun₁ h₂
    exact absurd hq (Nat.not_lt_zero _)

/-- An action that fails raises an error of its own, or the sink is full, or there is no token. -/
theorem Composed.raises {w : Prop} {E : Error → Prop} {m : OnAny α} (h : Composed w E m) :
    ∀ (run : Run σ) {e : Error} {run' : Run σ}, m σ run = .error e run' →
      E e ∨ e = .output .sinkFull ∨ ∃ p, e = .unexpectedEnd p := by
  induction h with
  | pure a => intro run e run' h; cases h
  | throw e he =>
      intro run e' run' h
      obtain ⟨rfl, -⟩ := EStateM.Result.error.inj h
      exact .inl he
  | write bs hw =>
      intro run e run' h
      change Compile.write bs run = .error e run' at h
      unfold Compile.write at h
      dsimp only at h
      split at h
      · cases h
      · obtain ⟨rfl, -⟩ := EStateM.Result.error.inj h
        exact .inr (.inl rfl)
  | record event => intro run e run' h; cases h
  | tally f => intro run e run' h; cases h
  | peek => intro run e run' h; cases h
  | expect =>
      intro run e run' h
      change Compile.expect run = .error e run' at h
      unfold Compile.expect at h
      rcases htake : TokenSource.take run.source with ⟨_ | t, source⟩
      · rw [htake] at h
        obtain ⟨rfl, -⟩ := EStateM.Result.error.inj h
        exact .inr (.inr ⟨_, rfl⟩)
      · rw [htake] at h
        cases h
  | bind _ _ ihm ihf =>
      intro run e run' h
      rcases bind_eq_error_iff.mp h with h | ⟨a, run₁, -, h⟩
      · exact ihm run h
      · exact ihf a run₁ h
  | @iterate _ _ step hadvances _ b ih =>
      intro run e run'
      show iterateOn (fun b => step b σ) (hadvances σ) b run = .error e run' → _
      fun_induction iterateOn (fun b => step b σ) (hadvances σ) b run with
      | case1 b run e' run₁ hs =>
          intro h
          obtain ⟨rfl, rfl⟩ := EStateM.Result.error.inj h
          exact ih b run hs
      | case2 b run a run₁ hs => intro h; cases h
      | case3 b run b' run₁ hs ihrun => exact ihrun

end Compile

open WidgetLayout.Compile

namespace Document

/-! ### Items that fail

A property fails after its first byte or before it, a child after the end of the properties or
before it, and an end never. -/

section Items

variable {σ : Type} {n : Nat}

theorem stops_note (event : Event) (f : Stats → Stats) :
    Stops n (do record event; tally f : Compile σ Unit) := by
  intro run e run' _ h
  cases h

theorem stops_writeValue (v : Value) : Stops 1 (Literal.writeValue v : Compile σ Unit) := by
  unfold Literal.writeValue
  by_cases hfits : v.Fits
  · rw [if_pos hfits]
    exact stops_write _
  · rw [if_neg hfits]
    exact stops_throw _

theorem stops_endProperties (here : Section) : Stops n (endProperties here : Compile σ Unit) := by
  cases here with
  | properties => exact stops_write _
  | children => exact stops_pure _

variable [TokenSource σ]

theorem stops_emit (bs : List UInt8) (event : Event) (f : Stats → Stats) :
    Stops n (do write bs; record event; tally f : Compile σ Unit) :=
  (stops_write bs).bind (.write bs trivial) fun _ => stops_note event f

theorem stops_encode (symbols : SymbolTables) (resources : BindingTable) (type : ValueType) :
    Stops 1 (Literal.encode symbols resources type : Compile σ Value) :=
  (Literal.composed_parse symbols resources type).stops_bind fun v =>
    (stops_writeValue v).bind (Literal.composed_writeValue v) fun _ => stops_pure v

variable (context : Context)

theorem stops_bound (entry : PropertyEntry) (name : Token) :
    Stops 2 (bound context entry name : Compile σ Unit) := by
  refine stops_byte_bind _ fun _ => (composed_accept _).stops_bind fun _ =>
    (composed_accept _).stops_bind fun _ => (composed_accept _).stops_bind fun source =>
      (composed_accept _).stops_bind fun _ => (composed_accept _).stops_bind fun _ => ?_
  cases context.bindings.properties.get? source.text with
  | some id => exact stops_emit _ _ _
  | none => exact stops_throw _

theorem stops_literal (entry : PropertyEntry) (name : Token) :
    Stops 2 (literal context entry name : Compile σ Unit) :=
  stops_byte_bind _ fun _ => (stops_encode _ _ _).bind (Literal.composed_encode _ _ _) fun _ =>
    stops_note _ _

theorem stops_property (entry : PropertyEntry) (name : Token) :
    Stops 2 (property context entry name : Compile σ Unit) := by
  refine (composed_accept _).stops_bind fun _ => Composed.stops_bind .peek fun front => ?_
  by_cases hfront : front.any (·.isWord "bind")
  · rw [if_pos hfront]
    exact stops_bound context entry name
  · rw [if_neg hfront]
    exact stops_literal context entry name

theorem stops_openWidget (depth : Nat) (name : Token) :
    Stops 1 (openWidget context depth name : Compile σ Unit) := by
  unfold openWidget
  by_cases hdepth : context.maxDepth < depth
  · rw [if_pos hdepth]
    exact stops_throw _
  · rw [if_neg hdepth]
    refine (composed_accept _).stops_bind fun _ => ?_
    cases context.symbols.widget? name.text with
    | some entry => exact stops_emit _ _ _
    | none => exact stops_throw _

/-- Only a property or the end of the properties leaves a byte behind. -/
theorem stops_bodyItem (here : Section) (outer : List Section) :
    Stops ((sectionEnd here).length + 1)
      (bodyItem context here outer : Compile σ (List Section)) := by
  refine Composed.stops_bind .expect fun t => ?_
  cases t.kind with
  | closeBrace =>
      exact (stops_endProperties here).bind (composed_endProperties here) fun _ =>
        (stops_write _).bind (.write _ trivial) fun _ => stops_pure _
  | identifier =>
      cases context.symbols.property? t.text with
      | some entry =>
          cases here with
          | children => exact stops_throw _
          | properties =>
              exact (stops_property context entry t).bind
                (composed_property context entry t) fun _ =>
                stops_pure _
      | none =>
          cases context.symbols.widget? t.text with
          | some _ =>
              have hopen : ∀ u : Unit, Stops 1 (do
                  openWidget context (outer.length + 2) t
                  return .properties :: .children :: outer : Compile σ (List Section)) := fun _ =>
                (stops_openWidget context _ t).bind (composed_openWidget context _ t) fun _ =>
                  stops_pure _
              cases here with
              | properties => exact stops_byte_bind terminator hopen
              | children => exact Composed.stops_bind (.pure ()) hopen
          | none => exact Composed.stops_bind .peek fun _ => stops_throw _
  | _ => exact stops_throw _

theorem stops_bodyStep (sections : Section × List Section) :
    Stops ((sectionEnd sections.1).length + 1)
    (bodyStep context sections : Compile σ ((Section × List Section) ⊕ Unit)) :=
  (stops_bodyItem context sections.1 sections.2).bind (composed_bodyItem context _ _) fun _ =>
    stops_pure _

end Items

end Document

/-! ### The decoder follows the compiler

After every item the decoder has the widgets open that the compiler has, and all of them but the
innermost one are in their children. -/

/-- The sections that the compiler has open where the decoder has come to. -/
def Decode.Open.sections (state : Decode.Open) : Section × List Section :=
  (if state.inChildren then .children else .properties, state.outer.map fun _ => .children)

namespace Document

/-- The end of the properties takes the decoder to the children, if it is not there yet. -/
theorem chain_sectionEnd (symbols : SymbolTables) (state : Decode.Open) :
    Chain Wire.tape (Decode.Step symbols) state (sectionEnd state.sections.1)
      ⟨true, state.here, state.outer⟩ := by
  obtain ⟨inChildren, here, outer⟩ := state
  cases inChildren with
  | true => exact .refl _
  | false => exact Chain.single .endProperties

/-- What an item leaves behind when it fails is too short to be read. -/
theorem starves_of_length_lt (symbols : SymbolTables) (state : Decode.Open) {q : List UInt8}
    (hq : q.length < (sectionEnd state.sections.1).length + 1) :
    Decode.Starves symbols state q := by
  obtain ⟨inChildren, here, outer⟩ := state
  match q with
  | [] => exact Decode.starves_nil _
  | b :: rest =>
      cases inChildren with
      | true => exact absurd hq (Nat.not_lt.mpr (Nat.succ_le_succ (Nat.zero_le _)))
      | false =>
          have hrest : rest.length = 0 := Nat.lt_one_iff.mp (Nat.lt_of_succ_lt_succ hq)
          rw [List.length_eq_zero_iff.mp hrest]
          exact Decode.starves_byte here outer b

/-! ### Failed compilations

The schema has to be one that can be read back, and the compiler must not nest widgets deeper than
the decoder allows. -/

section Failures

variable {σ : Type} [TokenSource σ] {context : Context} {run run' : Run σ} {e : Error}

theorem atEnd_eq_error (h : atEnd run = .error e run') : e.IsTrailing ∧ run'.sink = run.sink := by
  rcases bind_eq_error_iff.mp h with h | ⟨front, run₁, hpeek, h⟩
  · cases h
  · obtain ⟨-, rfl⟩ := EStateM.Result.ok.inj hpeek
    cases front with
    | none => cases h
    | some t =>
        obtain ⟨rfl, rfl⟩ := EStateM.Result.error.inj h
        exact ⟨⟨_, _, rfl⟩, rfl⟩

/-- No tree is refused for what follows it. -/
theorem not_isTrailing_of_compileTree_error (h : compileTree context run = .error e run') :
    ¬ e.IsTrailing := by
  rintro ⟨position, found, rfl⟩
  rcases (composed_compileTree context).raises run h with h | h | ⟨p, h⟩
  · exact h
  · cases h
  · cases h

variable {s : Schema} (hs : s.Readable) (hsymbols : context.symbols = s.index)
  (hdepth : context.maxDepth ≤ maxDecodeDepth)

include hs hsymbols hdepth

/-- What one step of the compiler writes takes the decoder to the sections that are open then. -/
theorem chain_of_body {state : Decode.Open} {next : Section × List Section} {e : Effect}
    (h : Body context state.sections (.inl next) e) :
    ∃ state', Chain Wire.tape (Decode.Step s.index) state e.bytes state' ∧
      next = state'.sections := by
  obtain ⟨t, sections, e, hitem, rfl, hnext⟩ := h
  cases hitem with
  | @property p l hhere hp =>
      obtain rfl := Sum.inl.inj hnext
      have hknown :=
        (Property.known_iff_declared hs p).mpr (Property.declared_of_spelled hsymbols hp)
      obtain ⟨inChildren, here, outer⟩ := state
      cases inChildren with
      | true => cases hhere
      | false => exact ⟨_, Chain.single (.property hknown hknown.form_encode), rfl⟩
  | @child opening entry ht hproperty hentry hopening hlimit =>
      obtain rfl := Sum.inl.inj hnext
      rw [hsymbols] at hentry
      have hmem := mem_of_widget? hentry
      have hentry' := (widgetByTag?_eq_some_iff hs).mpr ⟨hmem, rfl⟩
      have hlimit : state.outer.length + 2 ≤ maxDecodeDepth := by
        have hlength : state.sections.2.length = state.outer.length := List.length_map _
        omega
      exact ⟨_, (chain_sectionEnd s.index state).trans
        (Chain.single (.child hlimit (hs.tag_ne _ hmem) hentry')), rfl⟩
  | finish ht =>
      obtain ⟨inChildren, here, outer⟩ := state
      cases outer with
      | nil => cases hnext
      | cons parent outer =>
          obtain rfl := Sum.inl.inj hnext
          exact ⟨_, (chain_sectionEnd s.index _).trans (Chain.single .finish), rfl⟩

theorem chain_of_chain {sections sections' : Section × List Section} {e : Effect}
    (h : Chain (tape σ) (Body context) sections e sections') :
    ∀ state : Decode.Open, sections = state.sections →
      ∃ state', Chain Wire.tape (Decode.Step s.index) state e.bytes state' ∧
        sections' = state'.sections := by
  induction h with
  | refl sections =>
      intro state hstate
      exact ⟨state, .refl _, hstate⟩
  | head hround _ ih =>
      intro state hstate
      rw [hstate] at hround
      obtain ⟨state₁, hchain₁, hstate₁⟩ := chain_of_body hs hsymbols hdepth hround
      obtain ⟨state₂, hchain₂, hstate₂⟩ := ih state₁ hstate₁
      exact ⟨state₂, hchain₁.trans hchain₂, hstate₂⟩

variable [LawfulTokenSource σ]

/-- **A tree that is not compiled to its end does not decode.** -/
theorem decode_of_compileTree_error (hrun : run.sink.capacity = none) (hempty : run.written = [])
    (h : compileTree context run = .error e run') :
    ∃ fault, Decode.decode s.index run'.written = .error (.invalidFormat (.bytes fault)) := by
  have htree :
      (compileTree context : Compile σ Unit) = (accept .identifier >>= openWidget context 1) >>=
      fun _ => iterate (bodyStep context) (advances_bodyStep context) (.properties, []) :=
    (bind_assoc _ _ _).symm
  have hstops : Stops 1 (accept .identifier >>= openWidget context 1 : Compile σ Unit) :=
    (composed_accept _).stops_bind fun name => stops_openWidget context 1 name
  have hdoes := (does_accept (σ := σ) .identifier).bind fun name => does_openWidget context 1 name
  rw [htree] at h
  -- nothing is written before the tag of the root, and after it the decoder has begun a widget too
  rcases bind_eq_error_iff.mp h with h | ⟨_, run₁, hroot, h⟩
  · obtain ⟨q, hq, hwritten⟩ := hstops run e run' hrun h
    rw [hwritten, hempty, List.length_eq_zero_iff.mp (Nat.lt_one_iff.mp hq)]
    exact Decode.decode_nil
  · obtain ⟨_, ⟨name, _, _, ⟨-, rfl⟩, ⟨-, opening, entry, -, hentry, rfl⟩, rfl⟩, -, hbytes₁, -⟩ :=
      hdoes.sound hrun hroot
    obtain ⟨sections, e₂, run₂, hchain, hrun₂, ⟨-, hbytes₂, -⟩, h⟩ :=
      iterateOn_eq_error (does_bodyStep context) _ run₁ (hdoes.valid hrun hroot) h
    obtain ⟨q, hq, hwritten⟩ := stops_bodyStep context sections run₂ e run' hrun₂ h
    rw [hsymbols] at hentry
    have hentry' := (widgetByTag?_eq_some_iff hs).mpr ⟨mem_of_widget? hentry, rfl⟩
    obtain ⟨state, hchain', rfl⟩ := chain_of_chain hs hsymbols hdepth hchain
      ⟨false, ⟨entry.name, entry.tag, #[], #[]⟩, []⟩ rfl
    have hwritten₁ : run₁.written = run.written ++ [entry.tag] := hbytes₁
    have hwritten₂ : run₂.written = run₁.written ++ e₂.bytes := hbytes₂
    rw [hwritten, hwritten₂, hwritten₁, hempty, List.nil_append, List.append_assoc,
      List.singleton_append]
    exact Decode.decode_of_starves hentry' (.of_chain hchain' (starves_of_length_lt _ state hq))

/-- A tree that is compiled to its end decodes. -/
theorem decode_of_compileTree_ok (hrun : run.sink.capacity = none) (hempty : run.written = [])
    (h : compileTree context run = .ok () run') :
    ∃ w, Decode.decode s.index run'.written = .ok w := by
  obtain ⟨e, ⟨w, hheight, hspelled, hencode, -⟩, -, hbytes, -⟩ :=
    (does_compileTree context).sound hrun h
  have hwritten : run'.written = run.written ++ e.bytes := hbytes
  have hknown :=
    (Widget.known_iff_declared hs w).mpr (Widget.declared_of_spelled hsymbols w hspelled)
  rw [hwritten, hempty, hencode]
  exact ⟨w, Decode.decode_eq_ok_iff.mpr
    ⟨hknown, Nat.le_trans hheight hdepth, Widget.form_encode w hknown⟩⟩

/-- What is left of a compilation that failed decodes exactly if the document was complete. -/
theorem decode_of_compile_error (hrun : run.sink.capacity = none) (hempty : run.written = [])
    (h : compile context run = .error e run') :
    (e.IsTrailing ∧ ∃ w, Decode.decode s.index run'.written = .ok w) ∨
      (¬ e.IsTrailing ∧
        ∃ fault, Decode.decode s.index run'.written = .error (.invalidFormat (.bytes fault))) := by
  rw [compile_eq] at h
  rcases bind_eq_error_iff.mp h with htree | ⟨_, run₁, htree, hend⟩
  · exact .inr ⟨not_isTrailing_of_compileTree_error htree,
      decode_of_compileTree_error hs hsymbols hdepth hrun hempty htree⟩
  · obtain ⟨htrailing, hsink⟩ := atEnd_eq_error hend
    rw [Run.written_congr hsink]
    exact .inl ⟨htrailing, decode_of_compileTree_ok hs hsymbols hdepth hrun hempty htree⟩

end Failures

end Document

/-- **A failed compilation leaves no document behind, unless something only follows it.**  If
compiling a source fails, then the bytes that were written decode if and only if the error is that
something stands where the input should end; after any other error they are refused for their
format. -/
theorem decode_of_compileInto_error {bindings : Bindings} {source : String} {e : Error}
    (h : (compileInto .unbounded { Options.default with bindings := bindings }.context
      source).result = .error e) :
    let bytes := (compileInto .unbounded { Options.default with bindings := bindings }.context
      source).run.written
    ((∃ w, Decode.decode .shipped bytes = .ok w) ↔ e.IsTrailing) ∧
      (¬ e.IsTrailing → ∃ fault, Decode.decode .shipped bytes = .error (.invalidFormat fault)) := by
  intro bytes
  have hdepth : Options.default.maxDepth ≤ maxDecodeDepth := by decide
  rcases Document.decode_of_compile_error Schema.readable_shipped rfl hdepth rfl rfl
    (Compile.of_outcome_error h) with ⟨htrailing, hdecode⟩ | ⟨htrailing, fault, hdecode⟩
  · exact ⟨⟨fun _ => htrailing, fun _ => hdecode⟩, fun h => absurd htrailing h⟩
  · have hdecode : Decode.decode .shipped bytes = .error (.invalidFormat (.bytes fault)) := hdecode
    refine ⟨⟨?_, fun h => absurd h htrailing⟩, fun _ => ⟨_, hdecode⟩⟩
    rintro ⟨w, hw⟩
    rw [hdecode] at hw
    cases hw

/-- A bound name that the host does not know is noticed after the byte that begins the property; a
second root is noticed after the first one. -/
theorem decode_of_compileInto_error_panels :
    let unbound :=
      compileInto .unbounded Options.default.context "Panel \x7b text: bind(\"x\"); \x7d"
    let twice := compileInto .unbounded Options.default.context "Panel \x7b\x7d Panel \x7b\x7d"
    (unbound.result = .error (.unknownSymbol ⟨1, 20⟩ .propertyBinding "x") ∧
      unbound.run.written = [17, 138] ∧
      ∃ fault, Decode.decode .shipped unbound.run.written = .error (.invalidFormat fault)) ∧
    (twice.result = .error (.unexpectedToken ⟨1, 10⟩ .endOfInput "Panel") ∧
      twice.run.written = [17, 0, 0] ∧ ∃ w, Decode.decode .shipped twice.run.written = .ok w) := by
  intro unbound twice
  have hunbound : unbound.result = .error (.unknownSymbol ⟨1, 20⟩ .propertyBinding "x") := by
    decide +kernel
  have htwice : twice.result = .error (.unexpectedToken ⟨1, 10⟩ .endOfInput "Panel") := by
    decide +kernel
  have hinner : ¬ Error.IsTrailing (.unknownSymbol ⟨1, 20⟩ .propertyBinding "x") := by
    rintro ⟨position, found, h⟩
    cases h
  exact ⟨⟨hunbound, by decide +kernel, (decode_of_compileInto_error hunbound).2 hinner⟩,
    ⟨htwice, by decide +kernel, (decode_of_compileInto_error htwice).1.mpr ⟨_, _, rfl⟩⟩⟩

end WidgetLayout
