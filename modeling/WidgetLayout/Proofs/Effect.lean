/-
What a compiling action does, if it succeeds: tokens it takes, bytes it writes and what it counts.

An effect is these three together, and effects of actions in sequence are put together part by part.
With an unbounded sink writing never fails, so `Does` says of an action exactly on which tokens it
succeeds, and what it writes and counts then.  The events of a run are left out: nothing depends on
them.
-/
import WidgetLayout.Compile
import WidgetLayout.Proofs.Tape
import WidgetLayout.Proofs.TokenStream

namespace WidgetLayout

open WidgetLayout.Progress

namespace Stats

/-- Two counts put together; of two depths the greater counts. -/
def join (a b : Stats) : Stats where
  widgets := a.widgets + b.widgets
  properties := a.properties + b.properties
  bindings := a.bindings + b.bindings
  maxDepth := max a.maxDepth b.maxDepth

@[simp] theorem zero_join (a : Stats) : zero.join a = a := by
  simp [join, zero]

@[simp] theorem join_zero (a : Stats) : a.join zero = a := by
  simp [join, zero]

theorem join_assoc (a b c : Stats) : (a.join b).join c = a.join (b.join c) := by
  simp [join, Nat.add_assoc, Nat.max_assoc]

end Stats

/-- Tokens, bytes and counters: of a run what lies ahead and what was done, of an action what it
does. -/
@[ext]
structure Effect where
  tokens : List Token
  bytes : List UInt8
  stats : Stats

namespace Effect

/-- Nothing is taken, written or counted. -/
def nothing : Effect := ⟨[], [], .zero⟩

/-- One effect after the other. -/
def append (a b : Effect) : Effect :=
  ⟨a.tokens ++ b.tokens, a.bytes ++ b.bytes, a.stats.join b.stats⟩

instance : Append Effect := ⟨append⟩

theorem append_eq (a b : Effect) :
    a ++ b = ⟨a.tokens ++ b.tokens, a.bytes ++ b.bytes, a.stats.join b.stats⟩ := rfl

/-- Only tokens are taken. -/
def take (ts : List Token) : Effect := ⟨ts, [], .zero⟩

/-- Only bytes are written. -/
def write (bs : List UInt8) : Effect := ⟨[], bs, .zero⟩

/-- Something is only counted. -/
def count (stats : Stats) : Effect := ⟨[], [], stats⟩

@[simp] theorem nothing_append (e : Effect) : nothing ++ e = e := by
  simp [append_eq, nothing]

@[simp] theorem append_nothing (e : Effect) : e ++ nothing = e := by
  simp [append_eq, nothing]

theorem append_assoc (a b c : Effect) : a ++ b ++ c = a ++ (b ++ c) := by
  simp [append_eq, Stats.join_assoc]

@[simp] theorem take_append_take (ts ts' : List Token) :
    take ts ++ take ts' = take (ts ++ ts') := by
  simp [append_eq, take]

end Effect

namespace Compile

variable {σ : Type} [TokenSource σ]

/-- Runs with an unbounded sink, by the tokens ahead and by what they wrote and counted. -/
def tape (σ : Type) [TokenSource σ] : Tape (Run σ) Effect Effect where
  Valid run := run.sink.capacity = none
  view run := ⟨TokenSource.takeAll run.source, run.sink.bytes.toList, run.stats⟩
  Moves x e y :=
    x.tokens = e.tokens ++ y.tokens ∧ y.bytes = x.bytes ++ e.bytes ∧ y.stats = x.stats.join e.stats
  nil := .nothing
  append := (· ++ ·)
  moves_nil x y := by
    simp only [Effect.nothing, List.nil_append, List.append_nil, Stats.join_zero]
    constructor
    · intro h
      exact Effect.ext h.1.symm h.2.1 h.2.2
    · intro h
      rw [h]
      exact ⟨rfl, rfl, rfl⟩
  moves_append x a b z := by
    simp only [Effect.append_eq]
    constructor
    · intro h
      obtain ⟨htokens, hbytes, hstats⟩ := h
      rw [List.append_assoc] at htokens
      rw [← List.append_assoc] at hbytes
      rw [← Stats.join_assoc] at hstats
      exact ⟨⟨b.tokens ++ z.tokens, x.bytes ++ a.bytes, x.stats.join a.stats⟩, ⟨htokens, rfl, rfl⟩,
        ⟨rfl, hbytes, hstats⟩⟩
    · intro h
      obtain ⟨y, ⟨htokens, hbytes, hstats⟩, ⟨htokens', hbytes', hstats'⟩⟩ := h
      rw [htokens, htokens', hbytes', hbytes, hstats', hstats]
      exact ⟨(List.append_assoc _ _ _).symm, List.append_assoc _ _ _, Stats.join_assoc _ _ _⟩
  append_nil := Effect.append_nothing
  nil_append := Effect.nothing_append
  append_assoc := Effect.append_assoc

@[simp] theorem tape_append (a b : Effect) : (tape σ).append a b = a ++ b := rfl

@[simp] theorem tape_nil : (tape σ).nil = .nothing := rfl

/-- The action succeeds exactly with the effects of `F`, whose results are the ones that `F` gives
them. -/
abbrev Does {α : Type} (m : Compile σ α) (F : α → Effect → Prop) : Prop := Takes (tape σ) m F

/-! ### The actions -/

omit [TokenSource σ] in
/-- Without a bound all bytes are written. -/
theorem write_of_unbounded {run : Run σ} (bs : List UInt8) (hrun : run.sink.capacity = none) :
    write bs run = .ok () { run with sink := { run.sink with bytes := run.sink.bytes ++ bs } } := by
  simp [write, Sink.write, Sink.room, hrun]

theorem does_write (bs : List UInt8) :
    Does (write bs : Compile σ Unit) fun _ e => e = .write bs := by
  refine ⟨?_, ?_, ?_⟩
  · intro run _ run' hrun h
    rw [write_of_unbounded bs hrun] at h
    obtain ⟨-, rfl⟩ := EStateM.Result.ok.inj h
    exact hrun
  · intro run _ run' hrun h
    rw [write_of_unbounded bs hrun] at h
    obtain ⟨-, rfl⟩ := EStateM.Result.ok.inj h
    refine ⟨_, rfl, rfl, ?_, (Stats.join_zero _).symm⟩
    simp [tape, Effect.write]
  · intro run _ e z hrun he hmoves
    obtain rfl : e = .write bs := he
    obtain ⟨htokens, hbytes, hstats⟩ := hmoves
    refine ⟨_, write_of_unbounded bs hrun, Effect.ext htokens ?_ ?_⟩
    · rw [hbytes]
      simp [tape, Effect.write]
    · rw [hstats]
      exact (Stats.join_zero _).symm

theorem does_record (event : Event) :
    Does (record event : Compile σ Unit) fun _ e => e = .nothing := by
  refine ⟨?_, ?_, ?_⟩
  · intro run _ run' hrun h
    obtain ⟨-, rfl⟩ := EStateM.Result.ok.inj h
    exact hrun
  · intro run _ run' hrun h
    obtain ⟨-, rfl⟩ := EStateM.Result.ok.inj h
    exact ⟨_, rfl, ((tape σ).moves_nil _ _).mpr rfl⟩
  · intro run _ e z hrun he hmoves
    obtain rfl : e = .nothing := he
    exact ⟨_, rfl, (((tape σ).moves_nil _ _).mp hmoves).symm⟩

theorem does_tally {f : Stats → Stats} (stats : Stats) (hf : ∀ s, f s = s.join stats) :
    Does (tally f : Compile σ Unit) fun _ e => e = .count stats := by
  refine ⟨?_, ?_, ?_⟩
  · intro run _ run' hrun h
    obtain ⟨-, rfl⟩ := EStateM.Result.ok.inj h
    exact hrun
  · intro run _ run' hrun h
    obtain ⟨-, rfl⟩ := EStateM.Result.ok.inj h
    exact ⟨_, rfl, rfl, (List.append_nil _).symm, hf _⟩
  · intro run _ e z hrun he hmoves
    obtain rfl : e = .count stats := he
    obtain ⟨htokens, hbytes, hstats⟩ := hmoves
    refine ⟨_, rfl, Effect.ext htokens ?_ ?_⟩
    · rw [hbytes]
      exact (List.append_nil _).symm
    · rw [hstats]
      exact hf _

theorem does_expect : Does (expect : Compile σ Token) fun t e => e = .take [t] := by
  have hexpect : ∀ (run : Run σ) (t : Token) (run' : Run σ), expect run = .ok t run' →
      TokenSource.take run.source = (some t, run'.source) ∧ run'.sink = run.sink ∧
        run'.stats = run.stats := by
    intro run t run' h
    unfold expect at h
    rcases htake : TokenSource.take run.source with ⟨_ | t', source⟩
    · rw [htake] at h
      cases h
    · rw [htake] at h
      obtain ⟨rfl, rfl⟩ := EStateM.Result.ok.inj h
      exact ⟨rfl, rfl, rfl⟩
  refine ⟨?_, ?_, ?_⟩
  · intro run t run' hrun h
    obtain ⟨-, hsink, -⟩ := hexpect run t run' h
    show run'.sink.capacity = none
    rw [hsink]
    exact hrun
  · intro run t run' hrun h
    obtain ⟨htake, hsink, hstats⟩ := hexpect run t run' h
    refine ⟨_, rfl, TokenSource.takeAll_of_some htake, ?_, ?_⟩
    · show run'.sink.bytes.toList = _
      rw [hsink]
      exact (List.append_nil _).symm
    · show run'.stats = _
      rw [hstats]
      exact (Stats.join_zero _).symm
  · intro run t e z hrun he hmoves
    obtain rfl : e = .take [t] := he
    obtain ⟨htokens, hbytes, hstats⟩ := hmoves
    have htokens : TokenSource.takeAll run.source = t :: z.tokens := htokens
    rcases htake : TokenSource.take run.source with ⟨_ | t', source⟩
    · rw [TokenSource.takeAll_of_none htake] at htokens
      cases htokens
    · rw [TokenSource.takeAll_of_some htake] at htokens
      obtain ⟨rfl, hsource⟩ := List.cons.inj htokens
      refine ⟨{ run with source := source, trace := run.trace.push (.token t') }, ?_,
        Effect.ext hsource ?_ ?_⟩
      · unfold expect
        rw [htake]
      · rw [hbytes]
        exact (List.append_nil _).symm
      · rw [hstats]
        exact (Stats.join_zero _).symm

theorem does_accept (kind : TokenKind) :
    Does (accept kind : Compile σ Token) fun t e => t.kind = kind ∧ e = .take [t] := by
  refine (does_expect.bind fun t => Takes.ite (Takes.pure t) (Takes.throw _)).congr fun t e => ?_
  constructor
  · intro h
    obtain ⟨t', e₁, e₂, rfl, h, rfl⟩ := h
    by_cases hkind : t'.kind = kind
    · rw [if_pos hkind] at h
      obtain ⟨rfl, rfl⟩ := h
      exact ⟨hkind, (tape σ).append_nil _⟩
    · rw [if_neg hkind] at h
      exact h.elim
  · intro h
    obtain ⟨hkind, rfl⟩ := h
    refine ⟨t, _, .nothing, rfl, ?_, ((tape σ).append_nil _).symm⟩
    rw [if_pos hkind]
    exact ⟨rfl, rfl⟩

/-- Looking ahead takes nothing.  Where what comes next takes a token, it is the one that was
seen. -/
theorem does_peek_bind [LawfulTokenSource σ] {β : Type} {f : Option Token → Compile σ β}
    {F : Option Token → β → Effect → Prop} (hf : ∀ front, Does (f front) (F front))
    (htakes : ∀ front b e, F front b e → e.tokens ≠ []) :
    Does (peek >>= f) fun b e => F e.tokens.head? b e := by
  have hpeek : ∀ run : Run σ, (peek >>= f) run =
      f (TokenSource.takeAll run.source).head? { run with
        source := (TokenSource.peek run.source).2 } := by
    intro run
    rw [← peek_eq_head?]
    rfl
  have hview : ∀ run : Run σ, (tape σ).view { run with source := (TokenSource.peek run.source).2 } =
      (tape σ).view run := by
    intro run
    exact Effect.ext (takeAll_peek run.source) rfl rfl
  have hhead : ∀ {run : Run σ} {e z : Effect}, e.tokens ≠ [] →
      (tape σ).Moves ((tape σ).view run) e z →
      (TokenSource.takeAll run.source).head? = e.tokens.head? := by
    intro run e z hne hmoves
    have htokens : TokenSource.takeAll run.source = e.tokens ++ z.tokens := hmoves.1
    obtain ⟨t, ts, hts⟩ := List.exists_cons_of_ne_nil hne
    rw [htokens, hts]
    rfl
  refine ⟨?_, ?_, ?_⟩
  · intro run b run' hrun h
    rw [hpeek] at h
    exact (hf _).valid (x := { run with source := (TokenSource.peek run.source).2 }) hrun h
  · intro run b run' hrun h
    rw [hpeek] at h
    obtain ⟨e, he, hmoves⟩ :=
      (hf _).sound (x := { run with source := (TokenSource.peek run.source).2 }) hrun h
    rw [hview] at hmoves
    rw [hhead (htakes _ _ _ he) hmoves] at he
    exact ⟨e, he, hmoves⟩
  · intro run b e z hrun he hmoves
    rw [hpeek, hhead (htakes _ _ _ he) hmoves]
    rw [← hview] at hmoves
    exact (hf _).complete (x := { run with source := (TokenSource.peek run.source).2 })
      hrun he hmoves

/-- A fault may tell what lies ahead. -/
theorem does_peek_throw {α : Type} (f : Option Token → Error) :
    Does (do throw (f (← peek)) : Compile σ α) fun _ _ => False where
  valid _ h := nomatch h
  sound _ h := nomatch h
  complete _ h := h.elim

/-- Refusing a kind of token ahead changes nothing where what comes next cannot begin with it. -/
theorem does_peek_unless [LawfulTokenSource σ] {α : Type} {f : Option Token → Compile σ α}
    {m : Compile σ α} {F : α → Effect → Prop} (kind : TokenKind) (h : Does m F) (hnone : f none = m)
    (hsome : ∀ t, ∃ fault, f (some t) = if t.kind = kind then throw fault else m)
    (hfirst : ∀ a e, F a e → ∃ t ts, e.tokens = t :: ts ∧ t.kind ≠ kind) : Does (peek >>= f) F := by
  refine (does_peek_bind (F := fun front a e => (∀ t, front = some t → t.kind ≠ kind) ∧ F a e)
    (fun front => ?_) fun front a e he => ?_).congr fun a e => ?_
  · cases front with
    | none =>
        rw [hnone]
        exact h.congr fun a e => by simp
    | some t =>
        obtain ⟨fault, hf⟩ := hsome t
        rw [hf]
        refine (Takes.ite (Takes.throw fault) h).congr fun a e => ?_
        by_cases hkind : t.kind = kind
        · simp [hkind]
        · simp [hkind]
  · obtain ⟨t, ts, hts, -⟩ := hfirst a e he.2
    rw [hts]
    exact List.cons_ne_nil t ts
  · refine and_iff_right_of_imp fun he => ?_
    obtain ⟨t, ts, hts, hkind⟩ := hfirst a e he
    intro t' ht'
    rw [hts] at ht'
    obtain rfl := Option.some.inj ht'
    exact hkind

/-! ### Lists of tokens

What an action takes of a list is a beginning of it, so whether it succeeds can be told from the
list. -/

/-- On a list of tokens an action that takes `l` succeeds wherever `l` stands in front, and leaves
what follows. -/
theorem Does.ok_of_append {α : Type} {m : Compile (List Token) α} {F : α → Effect → Prop}
    (h : Does m F) {a : α} {l r : List Token} (hF : F a (.take l)) {run : Run (List Token)}
    (hsink : run.sink.capacity = none) (hsource : run.source = l ++ r) :
    ∃ run', m run = .ok a run' ∧ run'.source = r ∧ run'.sink.capacity = none := by
  have hmoves : (tape (List Token)).Moves ((tape (List Token)).view run) (.take l)
      ⟨r, run.sink.bytes.toList, run.stats⟩ := by
    refine ⟨?_, (List.append_nil _).symm, (Stats.join_zero _).symm⟩
    show TokenSource.takeAll run.source = l ++ r
    rw [takeAll_list, hsource]
  obtain ⟨run', hrun, hview⟩ := h.complete hsink hF hmoves
  refine ⟨run', hrun, ?_, h.valid hsink hrun⟩
  rw [← takeAll_list run'.source]
  exact congrArg Effect.tokens hview

/-- If the action only takes tokens, what it leaves of a list is what follows them. -/
theorem Does.append_of_ok {α : Type} {m : Compile (List Token) α} {G : α → List Token → Prop}
    (h : Does m fun a e => ∃ l, G a l ∧ e = .take l) {a : α} {run run' : Run (List Token)}
    (hsink : run.sink.capacity = none) (hrun : m run = .ok a run') :
    ∃ l, G a l ∧ run.source = l ++ run'.source := by
  obtain ⟨_, ⟨l, hl, rfl⟩, htokens, -⟩ := h.sound hsink hrun
  have htokens : TokenSource.takeAll run.source = l ++ TokenSource.takeAll run'.source := htokens
  rw [takeAll_list, takeAll_list] at htokens
  exact ⟨l, hl, htokens⟩

theorem peek_of_cons {run : Run (List Token)} {t : Token} {r : List Token}
    (hsource : run.source = t :: r) : peek run = .ok (some t) run := by
  show EStateM.Result.ok run.source.head? run = _
  rw [hsource]
  rfl

end Compile

end WidgetLayout
