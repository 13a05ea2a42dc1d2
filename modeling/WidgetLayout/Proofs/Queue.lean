/-
A compilation sees nothing of its source but the tokens.

A lawful source stands for the list of its tokens, and that list is a source too.  `Run.queued` puts
the list in the place of the source.  Compiling and then doing so gives the same run as doing so and
then compiling (`Composed.queued_eq`), errors included: whatever kind of source it is, it could as
well have been the list.  The one thing that a list cannot tell is where the input ended, because an
empty list stands nowhere.

So a lexer that scans while the compiler looks ahead, and a queue of the tokens of the whole source,
are compiled alike.
-/
import WidgetLayout.Proofs.Composed

namespace WidgetLayout

open WidgetLayout.Progress WidgetLayout.TokenSource

/-- An error as it is without a place where the input ended. -/
def Error.unplaced : Error → Error
  | .unexpectedEnd _ => .unexpectedEnd ⟨0, 0⟩
  | e => e

theorem Error.unplaced_of_ne {e : Error} (h : ∀ p, e ≠ .unexpectedEnd p) : e.unplaced = e := by
  cases e with
  | unexpectedEnd p => exact absurd rfl (h p)
  | _ => rfl

variable {σ : Type} [TokenSource σ]

/-- A run with the list of its tokens for its source. -/
def Run.queued (run : Run σ) : Run (List Token) :=
  ⟨takeAll run.source, run.sink, run.stats, run.trace⟩

namespace Compile

/-- What an action came to, with the list of the tokens for the source. -/
def queuedResult {α : Type} :
    EStateM.Result Error (Run σ) α → EStateM.Result Error (Run (List Token)) α
  | .ok a run => .ok a run.queued
  | .error e run => .error e.unplaced run.queued

theorem queued_write (bs : List UInt8) (run : Run σ) :
    write bs run.queued = queuedResult (write bs run) := by
  unfold write
  have hsink : run.queued.sink = run.sink := rfl
  rw [hsink]
  by_cases hfits : (run.sink.write bs).1
  · simp only [if_pos hfits]
    rfl
  · simp only [if_neg hfits]
    rfl

theorem queued_bind {α β : Type} {m : Compile σ α} {n : Compile (List Token) α}
    {f : α → Compile σ β} {g : α → Compile (List Token) β}
    (hm : ∀ run, n run.queued = queuedResult (m run))
    (hf : ∀ a run, g a run.queued = queuedResult (f a run)) (run : Run σ) :
    (n >>= g) run.queued = queuedResult ((m >>= f) run) := by
  show EStateM.bind n g run.queued = queuedResult (EStateM.bind m f run)
  unfold EStateM.bind
  rw [hm]
  cases m run with
  | ok a run' => exact hf a run'
  | error e run' => rfl

theorem queued_iterate {α β : Type} {step : β → Compile σ (β ⊕ α)} {hstep : ∀ b, Advances (step b)}
    {step' : β → Compile (List Token) (β ⊕ α)} {hstep' : ∀ b, Advances (step' b)}
    (h : ∀ b run, step' b run.queued = queuedResult (step b run)) (b : β) (run : Run σ) :
    iterateOn step' hstep' b run.queued = queuedResult (iterateOn step hstep b run) := by
  fun_induction iterateOn step hstep b run with
  | case1 b run e run' hs =>
      have hq := h b run
      rw [hs] at hq
      exact iterateOn_of_error hq
  | case2 b run a run' hs =>
      have hq := h b run
      rw [hs] at hq
      exact iterateOn_of_done hq
  | case3 b run b' run' hs ih =>
      have hq := h b run
      rw [hs] at hq
      rw [iterateOn_of_more hq]
      exact ih

variable [LawfulTokenSource σ]

theorem queued_peek (run : Run σ) : peek run.queued = queuedResult (peek run) := by
  show EStateM.Result.ok (takeAll run.source).head? run.queued =
    .ok (TokenSource.peek run.source).1
    (Run.queued { run with source := (TokenSource.peek run.source).2 })
  simp only [peek_eq_head?, Run.queued, takeAll_peek]

theorem queued_expect (run : Run σ) : expect run.queued = queuedResult (expect run) := by
  have hrest := takeAll_take run.source
  rcases htake : TokenSource.take run.source with ⟨_ | t, source⟩
  · have hnil := takeAll_of_none htake
    rw [htake, hnil] at hrest
    simp only [expect, htake, queuedResult, Run.queued, hnil, hrest, Error.unplaced]
    rfl
  · have hcons := takeAll_of_some htake
    simp only [expect, htake, queuedResult, Run.queued, hcons]
    rfl

/-- **The list of the tokens is as good as the source.** -/
theorem Composed.queued_eq {w : Prop} {α : Type} {m : OnAny α}
    (h : Composed w (fun e => ∀ p, e ≠ .unexpectedEnd p) m) :
    ∀ run : Run σ, m (List Token) run.queued = queuedResult (m σ run) := by
  induction h with
  | pure a =>
      intro run
      rfl
  | throw e he =>
      intro run
      show EStateM.Result.error e run.queued = .error e.unplaced run.queued
      rw [Error.unplaced_of_ne he]
  | write bs hw => exact queued_write bs
  | record event =>
      intro run
      rfl
  | tally f =>
      intro run
      rfl
  | peek => exact queued_peek
  | expect => exact queued_expect
  | bind _ _ ihm ihf => exact queued_bind ihm ihf
  | iterate hadvances _ b ih => exact queued_iterate ih b

end Compile

/-- **The compiler depends only on what a source promises.**  A source text is compiled alike from
its lexer and from the queue of its tokens without the end: the same bytes are written, the same
things counted and the same tokens left, and both end well or fail with the same error, except that
an end of input may be reported at different places. -/
theorem compileInto_eq_compile_queue (context : Context) (source : String) (sink : Sink) :
    ∃ queue eof, tokenize source = queue ++ [eof] ∧ eof.kind = .endOfFile ∧
      let lexed := compileInto sink context source
      let queued := (Document.compile context).outcome (.start queue sink)
      lexed.run.sink = queued.run.sink ∧ lexed.run.stats = queued.run.stats ∧
        takeAll lexed.run.source = queued.run.source ∧
          (lexed.result = queued.result ∨
            ∃ p p', lexed.result = .error (.unexpectedEnd p) ∧
              queued.result = .error (.unexpectedEnd p')) := by
  obtain ⟨eof, heof, htokens⟩ := Lexer.tokens_eq (.ofSource source)
  refine ⟨_, eof, htokens, heof, ?_⟩
  have hqueued :=
    (Document.composed_compile context).queued_eq (.start (Lexer.ofSource source) sink)
  have hstart : (Run.start (Lexer.ofSource source) sink).queued =
      .start (takeAll (Lexer.ofSource source)) sink := rfl
  rw [hstart] at hqueued
  unfold compileInto Compile.outcome
  rw [hqueued]
  cases Document.compile context (.start (Lexer.ofSource source) sink) with
  | ok _ run => exact ⟨rfl, rfl, rfl, .inl rfl⟩
  | error e run =>
      refine ⟨rfl, rfl, rfl, ?_⟩
      cases e with
      | unexpectedEnd p => exact .inr ⟨p, ⟨0, 0⟩, rfl, rfl⟩
      | _ => exact .inl rfl

end WidgetLayout
