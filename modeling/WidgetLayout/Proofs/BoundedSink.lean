/-
A bounded sink receives the beginning of what an unbounded one receives.

An action never looks at its sink, and writes its output from front to back.  So a bound is noticed
by nothing but the first write that does not fit, and all that happened before is as it was without
the bound.  `Streams` says this of an action that starts from a run without a bound.  Of two actions
in sequence the first one may run out of room, while without a bound the second one goes on writing;
what is there by then stays there, which is why `Streams` also says that output only grows.
-/
import WidgetLayout.Proofs.Composed

namespace WidgetLayout

open WidgetLayout.Progress

section Runs

variable {σ : Type}

/-- The bytes that a run has written. -/
def Run.written (run : Run σ) : List UInt8 := run.sink.bytes.toList

theorem Run.written_congr {run run' : Run σ} (h : run.sink = run'.sink) :
    run.written = run'.written := by
  unfold Run.written
  rw [h]

/-- A run with room for `c` bytes in all. -/
def Run.within (c : Nat) (run : Run σ) : Run σ :=
  { run with sink := { run.sink with capacity := some c } }

end Runs

namespace Compile

variable {σ α β : Type}

/-- What an action came to, in a run with room for `c` bytes. -/
def withinResult (c : Nat) : EStateM.Result Error (Run σ) α → EStateM.Result Error (Run σ) α
  | .ok a run => .ok a (run.within c)
  | .error e run => .error e (run.within c)

/-- What an action comes to with room for `c` bytes, if it comes to `r` without a bound. -/
def Cut (c : Nat) (r r' : EStateM.Result Error (Run σ) α) : Prop :=
  if (left r).written.length ≤ c then r' = withinResult c r
  else ∃ run, r' = .error (.output .sinkFull) run ∧ run.written = (left r).written.take c

theorem cut_of_fits {c : Nat} {r r' : EStateM.Result Error (Run σ) α}
    (hc : (left r).written.length ≤ c) (h : r' = withinResult c r) : Cut c r r' := by
  unfold Cut
  rw [if_pos hc]
  exact h

theorem cut_of_full {c : Nat} {r : EStateM.Result Error (Run σ) α} {run : Run σ}
    (hc : c < (left r).written.length) (h : run.written = (left r).written.take c) :
    Cut c r (.error (.output .sinkFull) run) := by
  unfold Cut
  rw [if_neg (Nat.not_le.mpr hc)]
  exact ⟨run, rfl, h⟩

theorem Cut.fits {c : Nat} {r r' : EStateM.Result Error (Run σ) α} (h : Cut c r r')
    (hc : (left r).written.length ≤ c) : r' = withinResult c r := by
  unfold Cut at h
  rwa [if_pos hc] at h

theorem Cut.full {c : Nat} {r r' : EStateM.Result Error (Run σ) α} (h : Cut c r r')
    (hc : ¬ (left r).written.length ≤ c) :
    ∃ run, r' = .error (.output .sinkFull) run ∧ run.written = (left r).written.take c := by
  unfold Cut at h
  rwa [if_neg hc] at h

/-- The action adds to what a run without a bound has written, and a bound only cuts off what it
adds. -/
structure Streams (m : Compile σ α) (run : Run σ) : Prop where
  unbounded : (left (m run)).sink.capacity = none
  grows : run.written <+: (left (m run)).written
  cut : ∀ c, run.written.length ≤ c → Cut c (m run) (m (run.within c))

/-! ### Primitive actions -/

section Primitive

variable {run : Run σ}

/-- An action that leaves the sink alone does the same with any sink. -/
theorem streams_of_sink_eq {m : Compile σ α} (hrun : run.sink.capacity = none)
    (hsink : (left (m run)).sink = run.sink)
    (hwithin : ∀ c, m (run.within c) = withinResult c (m run)) :
    Streams m run where
  unbounded := by
    rw [hsink]
    exact hrun
  grows := ⟨[], by rw [List.append_nil, Run.written_congr hsink]⟩
  cut c hc := by
    refine cut_of_fits ?_ (hwithin c)
    rw [Run.written_congr hsink]
    exact hc

theorem streams_expect [TokenSource σ] (hrun : run.sink.capacity = none) :
    Streams (expect : Compile σ Token) run := by
  refine streams_of_sink_eq hrun (sink_expect run) fun c => ?_
  have hsource : (run.within c).source = run.source := rfl
  unfold expect
  rw [hsource]
  rcases TokenSource.take run.source with ⟨_ | t, source⟩
  · rfl
  · rfl

theorem streams_write (bs : List UInt8) (hrun : run.sink.capacity = none) :
    Streams (write bs : Compile σ Unit) run where
  unbounded := by
    rw [write_of_unbounded bs hrun]
    exact hrun
  grows := by
    rw [write_of_unbounded bs hrun]
    simp [left, Run.written]
  cut c hc := by
    have hc : run.sink.bytes.size ≤ c := hc
    rw [write_of_unbounded bs hrun]
    by_cases hfits : run.sink.bytes.size + bs.length ≤ c
    · have hroom : min bs.length (c - run.sink.bytes.size) = bs.length := by omega
      refine cut_of_fits ?_ ?_
      · simpa [left, Run.written] using hfits
      · simp [write, Run.within, Sink.write, Sink.room, hroom, withinResult]
    · have hroom : min bs.length (c - run.sink.bytes.size) = c - run.sink.bytes.size := by omega
      have hne : c - run.sink.bytes.size ≠ bs.length := by omega
      have hwrite : write bs (run.within c) = .error (.output .sinkFull)
          { run with sink := ⟨run.sink.bytes ++ bs.take (c - run.sink.bytes.size), some c⟩ } := by
        simp [write, Run.within, Sink.write, Sink.room, hroom, hne]
      rw [hwrite]
      refine cut_of_full ?_ ?_
      · simpa [left, Run.written] using hfits
      · simp [left, Run.written, List.take_append, List.take_of_length_le, hc]

end Primitive

/-! ### Sequences and loops

Of two actions the first may run out of room where without a bound the second one goes on
writing.  That output only grows is what cuts off the writing of both at the same place. -/

/-- Where the room has run out, what would have been added later makes no difference. -/
theorem cut_of_grows {c : Nat} {r : EStateM.Result Error (Run σ) α}
    {r' : EStateM.Result Error (Run σ) β} {run : Run σ} (hc : c < (left r).written.length)
    (hrun : run.written = (left r).written.take c)
    (hgrows : (left r).written <+: (left r').written) :
      Cut c r' (.error (.output .sinkFull) run) := by
  refine cut_of_full (Nat.lt_of_lt_of_le hc hgrows.length_le) ?_
  obtain ⟨more, hmore⟩ := hgrows
  rw [hrun, ← hmore, List.take_append_of_le_length (Nat.le_of_lt hc)]

theorem Streams.bind {m : Compile σ α} {f : α → Compile σ β} {run : Run σ} (hm : Streams m run)
    (hf : ∀ a run', m run = .ok a run' → Streams (f a) run') : Streams (m >>= f) run := by
  have hrest : (left ((m >>= f) run)).sink.capacity = none ∧
      (left (m run)).written <+: (left ((m >>= f) run)).written := by
    have hunbounded := hm.unbounded
    cases hr : m run with
    | ok a run' =>
        rw [bind_of_ok hr]
        exact ⟨(hf a run' hr).unbounded, (hf a run' hr).grows⟩
    | error e run' =>
        rw [hr] at hunbounded
        rw [bind_of_error hr]
        exact ⟨hunbounded, List.prefix_rfl⟩
  refine ⟨hrest.1, hm.grows.trans hrest.2, fun c hc => ?_⟩
  by_cases hfits : (left (m run)).written.length ≤ c
  · have hwithin := (hm.cut c hc).fits hfits
    cases hr : m run with
    | ok a run' =>
        rw [hr] at hwithin hfits
        rw [bind_of_ok hr, bind_of_ok hwithin]
        exact (hf a run' hr).cut c hfits
    | error e run' =>
        rw [hr] at hwithin hfits
        rw [bind_of_error hr, bind_of_error hwithin]
        exact cut_of_fits hfits rfl
  · obtain ⟨full, heq, hfull⟩ := (hm.cut c hc).full hfits
    rw [bind_of_error heq]
    exact cut_of_grows (Nat.lt_of_not_le hfits) hfull hrest.2

theorem streams_iterate [TokenSource σ] {step : β → Compile σ (β ⊕ α)}
    {hstep : ∀ b, Advances (step b)} (h : ∀ b run, run.sink.capacity = none → Streams (step b) run)
    (b : β) (run : Run σ) (hrun : run.sink.capacity = none) :
    Streams (iterate step hstep b) run := by
  -- the induction is on the rounds of the run without a bound; the other run has no more of them
  induction b, run using iterateOn.induct step hstep with
  | case1 b run e run' hs =>
      rw [iterate_eq_bind]
      refine (h b run hrun).bind fun r run'' hr => ?_
      rw [hs] at hr
      cases hr
  | case2 b run a run' hs =>
      have hrun' := (h b run hrun).unbounded
      rw [hs] at hrun'
      rw [iterate_eq_bind]
      refine (h b run hrun).bind fun r run'' hr => ?_
      rw [hs] at hr
      cases hr
      exact streams_of_sink_eq hrun' rfl fun _ => rfl
  | case3 b run b' run' hs ih =>
      have hrun' := (h b run hrun).unbounded
      rw [hs] at hrun'
      rw [iterate_eq_bind]
      refine (h b run hrun).bind fun r run'' hr => ?_
      rw [hs] at hr
      cases hr
      exact ih hrun'

/-- **A bound on the sink cuts the output of an action off, and changes nothing else.** -/
theorem Composed.streams {w : Prop} {E : Error → Prop} {m : OnAny α} (h : Composed w E m)
    [TokenSource σ] : ∀ run : Run σ, run.sink.capacity = none → Streams (m σ) run := by
  induction h with
  | pure a =>
      intro run hrun
      exact streams_of_sink_eq hrun rfl fun _ => rfl
  | throw e he =>
      intro run hrun
      exact streams_of_sink_eq hrun rfl fun _ => rfl
  | write bs hw =>
      intro run hrun
      exact streams_write bs hrun
  | record event =>
      intro run hrun
      exact streams_of_sink_eq hrun rfl fun _ => rfl
  | tally f =>
      intro run hrun
      exact streams_of_sink_eq hrun rfl fun _ => rfl
  | peek =>
      intro run hrun
      exact streams_of_sink_eq hrun rfl fun _ => rfl
  | expect =>
      intro run hrun
      exact streams_expect hrun
  | bind _ _ ihm ihf =>
      intro run hrun
      refine (ihm run hrun).bind fun a run' hr => ihf a run' ?_
      have hrun' := (ihm run hrun).unbounded
      rwa [hr] at hrun'
  | iterate hadvances _ b ih =>
      intro run hrun
      exact streams_iterate ih b run hrun

/-! ### What becomes of a sink

`Streams` is about runs without a bound.  That bytes stay where they are holds with a bound, too.
-/

/-- Output only grows, whether it is bounded or not and whether the action fails or not. -/
theorem Composed.grows {w : Prop} {E : Error → Prop} {m : OnAny α} (h : Composed w E m)
    [TokenSource σ] (run : Run σ) : run.written <+: (left (m σ run)).written :=
  h.sink_rel (R := fun s s' => s.bytes.toList <+: s'.bytes.toList) (fun _ => List.prefix_rfl)
    (fun h h' => h.trans h') (fun _ s bs => ⟨bs.take (s.room bs.length), by simp [Sink.write]⟩) run

/-! ### Whole compilations -/

theorem run_outcome (m : Compile σ Unit) (run : Run σ) : (m.outcome run).run = left (m run) := by
  unfold outcome
  cases m run with
  | ok u run' => rfl
  | error e run' => rfl

theorem outcome_of_error {m : Compile σ Unit} {run run' : Run σ} {e : Error}
    (h : m run = .error e run') : m.outcome run = ⟨run', .error e⟩ := by
  unfold outcome
  rw [h]

theorem of_outcome_error {m : Compile σ Unit} {run : Run σ} {e : Error}
    (h : (m.outcome run).result = .error e) : m run = .error e (m.outcome run).run := by
  unfold outcome at h ⊢
  cases hm : m run with
  | ok u run' =>
      rw [hm] at h
      cases h
  | error e' run' =>
      rw [hm] at h
      cases h
      rfl

theorem outcome_of_within {m : Compile σ Unit} {run run' : Run σ} {c : Nat}
    (h : m run' = withinResult c (m run)) :
    m.outcome run' = ⟨(m.outcome run).run.within c, (m.outcome run).result⟩ := by
  unfold outcome
  rw [h]
  cases m run with
  | ok u run'' => rfl
  | error e run'' => rfl

end Compile

/-- Compiles a queue of tokens into an empty sink, with or without a bound. -/
def compileQueue (context : Context) (q : List Token) (capacity : Option Nat) :
    Outcome (List Token) :=
  (Document.compile context).outcome (.start q ⟨#[], capacity⟩)

/-- Unless a compilation fails because its sink is full, a bound makes no difference to it. -/
theorem compileQueue_unbounded (context : Context) (q : List Token) (capacity : Option Nat) :
    (compileQueue context q capacity).result = .error (.output .sinkFull) ∨
      (compileQueue context q none).result = (compileQueue context q capacity).result ∧
        (compileQueue context q none).run.stats = (compileQueue context q capacity).run.stats := by
  cases capacity with
  | none => exact .inr ⟨rfl, rfl⟩
  | some c =>
      have hcut := ((Document.composed_compile context).streams (.start q .unbounded) rfl).cut c
        (Nat.zero_le c)
      by_cases hfits : (left (Document.compile context (.start q .unbounded))).written.length ≤ c
      · have houtcome : compileQueue context q (some c) = _ :=
          Compile.outcome_of_within (hcut.fits hfits)
        rw [houtcome]
        exact .inr ⟨rfl, rfl⟩
      · obtain ⟨full, heq, -⟩ := hcut.full hfits
        have houtcome : compileQueue context q (some c) = _ := Compile.outcome_of_error heq
        rw [houtcome]
        exact .inl rfl

/-- **A bounded sink sees a prefix of the unbounded run.**  With room for `c` bytes, compiling a
source leaves the first `c` of the bytes that it writes without a bound.  If these are all of them
the result is the same, be it good or an error; otherwise it is that the sink is full. -/
theorem compileInto_bounded (context : Context) (source : String) (c : Nat) :
    let free := compileInto .unbounded context source
    let bounded := compileInto (.bounded c) context source
    bounded.run.written = free.run.written.take (min c free.run.written.length) ∧
      bounded.result =
        if free.run.written.length ≤ c then free.result else .error (.output .sinkFull) := by
  intro free bounded
  have hfree : free.run = left (Document.compile context (.start (.ofSource source) .unbounded)) :=
    Compile.run_outcome _ _
  have hcut := ((Document.composed_compile context).streams
    (.start (Lexer.ofSource source) .unbounded) rfl).cut c (Nat.zero_le c)
  by_cases hfits : free.run.written.length ≤ c
  · have hbounded : bounded = ⟨free.run.within c, free.result⟩ :=
      Compile.outcome_of_within (hcut.fits (by rwa [← hfree]))
    rw [hbounded, if_pos hfits, Nat.min_eq_right hfits, List.take_length]
    exact ⟨rfl, rfl⟩
  · obtain ⟨full, heq, hfull⟩ := hcut.full (by rwa [← hfree])
    have hbounded : bounded = ⟨full, .error (.output .sinkFull)⟩ := Compile.outcome_of_error heq
    rw [hbounded, if_neg hfits, Nat.min_eq_left (Nat.le_of_not_le hfits), hfree]
    exact ⟨hfull, rfl⟩

end WidgetLayout
