/-
The limit on the depth of nesting only cuts a compilation off.

Two compilations under different limits do the same until one of them opens a widget that is too
deep for it.  The one with the lower limit stops there, and what it has written stays at the front
of what the other one goes on to write, because output only grows.  `CutOff` relates what the two
come to.

A document that compiles under some limit spells a tree, and spells the same one under every limit.
So it compiles under the limits that its height does not exceed, and under no other.
-/
import WidgetLayout.Proofs.BoundedSink

namespace WidgetLayout

open WidgetLayout.Progress

namespace Compile

variable {σ α β : Type} {limit : Nat}

/-- What an action comes to under a limit on the depth, if it comes to `r'` under a greater one. -/
def CutOff (limit : Nat) (r r' : EStateM.Result Error (Run σ) α) : Prop :=
  r = r' ∨ ∃ run, r = .error (.limitExceeded .nestingDepth limit) run ∧
    run.written <+: (left r').written

theorem CutOff.bind {m m' : Compile σ α} {f f' : α → Compile σ β} {run : Run σ}
    (hm : CutOff limit (m run) (m' run))
    (hf : ∀ a run', m run = .ok a run' → CutOff limit (f a run') (f' a run'))
    (hgrows : ∀ a run', run'.written <+: (left (f' a run')).written) :
    CutOff limit ((m >>= f) run) ((m' >>= f') run) := by
  rcases hm with heq | ⟨stopped, heq, hstopped⟩
  · cases hr : m run with
    | ok a run' =>
        rw [bind_of_ok hr, bind_of_ok (heq.symm.trans hr)]
        exact hf a run' hr
    | error e run' =>
        rw [bind_of_error hr, bind_of_error (heq.symm.trans hr)]
        exact .inl rfl
  · -- the action with the greater limit goes on, and adds to what both have written
    refine .inr ⟨stopped, bind_of_error heq, ?_⟩
    cases hr : m' run with
    | ok a run' =>
        rw [hr] at hstopped
        rw [bind_of_ok hr]
        exact hstopped.trans (hgrows a run')
    | error e run' =>
        rw [hr] at hstopped
        rw [bind_of_error hr]
        exact hstopped

/-- What comes before is the same under both limits. -/
theorem cutOff_bind (m : Compile σ α) {f f' : α → Compile σ β} (run : Run σ)
    (hf : ∀ a run', CutOff limit (f a run') (f' a run')) :
    CutOff limit ((m >>= f) run) ((m >>= f') run) := by
  cases hr : m run with
  | ok a run' =>
      rw [bind_of_ok hr, bind_of_ok hr]
      exact hf a run'
  | error e run' =>
      rw [bind_of_error hr, bind_of_error hr]
      exact .inl rfl

/-- What comes after writes nothing and never fails. -/
theorem CutOff.map {m m' : Compile σ α} {run : Run σ}
    (hm : CutOff limit (m run) (m' run)) (f : α → β) :
    CutOff limit ((f <$> m) run) ((f <$> m') run) := by
  show CutOff limit ((m >>= fun a => pure (f a)) run) ((m' >>= fun a => pure (f a)) run)
  exact hm.bind (fun _ _ _ => .inl rfl) fun _ _ => List.prefix_rfl

/-- What is left of a loop after a round, when all that it does only adds to the bytes. -/
theorem prefix_rest [TokenSource σ] {step : β → Compile σ (β ⊕ α)} {hstep : ∀ b, Advances (step b)}
    (hgrows : ∀ b run, run.written <+: (left (iterate step hstep b run)).written) (r : β ⊕ α)
    (run : Run σ) :
    run.written <+: (left ((match r with
      | .inl b => iterate step hstep b
      | .inr a => pure a : Compile σ α) run)).written := by
  cases r with
  | inl b => exact hgrows b run
  | inr a => exact List.prefix_rfl

theorem cutOff_iterate [TokenSource σ] {step step' : β → Compile σ (β ⊕ α)}
    {hstep : ∀ b, Advances (step b)} {hstep' : ∀ b, Advances (step' b)}
    (h : ∀ b run, CutOff limit (step b run) (step' b run))
    (hgrows : ∀ b run, run.written <+: (left (iterate step' hstep' b run)).written) (b : β)
    (run : Run σ) : CutOff limit (iterate step hstep b run) (iterate step' hstep' b run) := by
  have hrest := prefix_rest hgrows
  -- the induction is on the rounds under the lower limit; the other run does them too
  induction b, run using iterateOn.induct step hstep with
  | case1 b run e run' hs =>
      rw [iterate_eq_bind, iterate_eq_bind]
      refine (h b run).bind (fun r run'' hr => ?_) hrest
      rw [hs] at hr
      cases hr
  | case2 b run a run' hs =>
      rw [iterate_eq_bind, iterate_eq_bind]
      refine (h b run).bind (fun r run'' hr => ?_) hrest
      rw [hs] at hr
      cases hr
      exact .inl rfl
  | case3 b run b' run' hs ih =>
      rw [iterate_eq_bind, iterate_eq_bind]
      refine (h b run).bind (fun r run'' hr => ?_) hrest
      rw [hs] at hr
      cases hr
      exact ih

end Compile

open WidgetLayout.Compile

namespace Document

/-! ### Two limits

Only the opening of a widget looks at the limit. -/

section Limits

variable {σ : Type} [TokenSource σ] (symbols : SymbolTables) (bindings : Bindings)
  {limit limit' : Nat} (hlimit : limit ≤ limit')

include hlimit

theorem cutOff_openWidget (depth : Nat) (name : Token) (run : Run σ) :
    CutOff limit (openWidget ⟨symbols, bindings, limit⟩ depth name run)
      (openWidget ⟨symbols, bindings, limit'⟩ depth name run) := by
  by_cases hdepth : limit < depth
  · refine .inr ⟨run, ?_, (composed_openWidget _ depth name).grows run⟩
    unfold openWidget
    rw [if_pos hdepth]
    rfl
  · have hdepth' : ¬ limit' < depth := by omega
    unfold openWidget
    rw [if_neg hdepth, if_neg hdepth']
    exact .inl rfl

theorem cutOff_bodyItem (here : Section) (outer : List Section) (run : Run σ) :
    CutOff limit (bodyItem ⟨symbols, bindings, limit⟩ here outer run)
      (bodyItem ⟨symbols, bindings, limit'⟩ here outer run) := by
  refine cutOff_bind expect run fun t run' => ?_
  cases t.kind with
  | identifier =>
      cases symbols.property? t.text with
      | some entry => exact .inl rfl
      | none =>
          cases symbols.widget? t.text with
          | some entry =>
              exact cutOff_bind (endProperties here) run' fun _ run'' =>
                (cutOff_openWidget symbols bindings hlimit _ t run'').map _
          | none => exact .inl rfl
  | _ => exact .inl rfl

theorem cutOff_compileTree (run : Run σ) :
    CutOff limit (compileTree ⟨symbols, bindings, limit⟩ run)
      (compileTree ⟨symbols, bindings, limit'⟩ run) := by
  have hstep : ∀ (state : Section × List Section) (run : Run σ),
      CutOff limit (bodyStep ⟨symbols, bindings, limit⟩ state run)
        (bodyStep ⟨symbols, bindings, limit'⟩ state run) :=
    fun state run => (cutOff_bodyItem symbols bindings hlimit state.1 state.2 run).map goOn
  have hgrows : ∀ (state : Section × List Section) (run : Run σ), run.written <+:
      (left
        (iterate (bodyStep ⟨symbols, bindings, limit'⟩) (advances_bodyStep _) state run)).written :=
    fun state run => (Composed.iterate (fun _ _ => advances_bodyStep _)
      (composed_bodyStep ⟨symbols, bindings, limit'⟩) state).grows run
  exact cutOff_bind (accept .identifier) run fun name run' =>
    (cutOff_openWidget symbols bindings hlimit 1 name run').bind
      (fun _ run'' _ => cutOff_iterate hstep hgrows _ run'') fun _ run'' => hgrows _ run''

theorem cutOff_compile (run : Run σ) :
    CutOff limit (compile ⟨symbols, bindings, limit⟩ run)
      (compile ⟨symbols, bindings, limit'⟩ run) := by
  rw [compile_eq, compile_eq]
  have hend : Composed True (fun _ => True) fun _ _ => atEnd := composed_atEnd fun _ _ => trivial
  exact (cutOff_compileTree symbols bindings hlimit run).bind (fun _ _ _ => .inl rfl)
    fun _ run' => hend.grows run'

end Limits

end Document

/-! ### What is spelled does not depend on the limit

A spelling asks for names and literals only, so it is one under every limit. -/

section Spellings

variable {symbols : SymbolTables} {bindings : Bindings} {limit limit' : Nat}

theorem Property.Spelled.under {p : Property} {l : List Token}
    (h : p.Spelled ⟨symbols, bindings, limit⟩ l) : p.Spelled ⟨symbols, bindings, limit'⟩ l := by
  cases h with
  | literal hname hentry hcolon hl hbind hfits =>
      exact .literal hname hentry hcolon hl hbind hfits
  | binding hname hentry hcolon hword hopening hsource hclosing hsemi hid =>
      exact .binding hname hentry hcolon hword hopening hsource hclosing hsemi hid

mutual

theorem Widget.spelled_under : (w : Widget) → ∀ {l : List Token},
    w.Spelled ⟨symbols, bindings, limit⟩ l → w.Spelled ⟨symbols, bindings, limit'⟩ l
  | ⟨name, tag, properties, children⟩, l, hspelled => by
      rw [Widget.Spelled] at hspelled ⊢
      obtain ⟨word, opening, closing, ps, cs, hword, hentry, hopening, hclosing, hps, hcs, rfl⟩ :=
        hspelled
      exact ⟨word, opening, closing, ps, cs, hword, hentry, hopening, hclosing,
        hps.imp fun _ _ hp => hp.under, Widget.childrenSpelled_under children hcs, rfl⟩

theorem Widget.childrenSpelled_under : (ws : List Widget) → ∀ {l : List Token},
    Widget.ChildrenSpelled ⟨symbols, bindings, limit⟩ ws l →
      Widget.ChildrenSpelled ⟨symbols, bindings, limit'⟩ ws l
  | [], l, hspelled => by
      rw [Widget.ChildrenSpelled] at hspelled ⊢
      exact hspelled
  | w :: ws, l, hspelled => by
      rw [Widget.ChildrenSpelled] at hspelled ⊢
      obtain ⟨l₁, l₂, hw, hname, hws, rfl⟩ := hspelled
      exact ⟨l₁, l₂, Widget.spelled_under w hw, hname, Widget.childrenSpelled_under ws hws, rfl⟩

end

end Spellings

namespace Document

/-! ### Whole documents

How deep a document goes is known from the tree that it spells, and so from a run without a bound on
the sink. -/

section Documents

variable {context : Context} {q : List Token} {capacity : Option Nat}

/-- What compiles spells a tree; how deep it was found to be is the height of the tree. -/
theorem exists_spelled_of_ok (h : (compileQueue context q capacity).result = .ok ()) :
    ∃ w : Widget, w.height ≤ context.maxDepth ∧ w.Spelled context q ∧
      (compileQueue context q capacity).run.stats.maxDepth = w.height := by
  rcases compileQueue_unbounded context q capacity with hfull | ⟨hresult, hstats⟩
  · rw [h] at hfull
    cases hfull
  · rw [h] at hresult
    have hstart : (Run.start q ⟨#[], none⟩).sink.capacity = none := rfl
    obtain ⟨w, hheight, hspelled, -, htally⟩ :=
      (compile_eq_ok_iff hstart).mp ⟨_, outcome_result_iff.mp hresult, rfl, rfl⟩
    have hspelled : w.Spelled context (TokenSource.takeAll q) := hspelled
    rw [takeAll_list] at hspelled
    have htally : (compileQueue context q none).run.stats = Stats.zero.join (w.tally 1) := htally
    refine ⟨w, hheight, hspelled, ?_⟩
    rw [← hstats, htally, Stats.zero_join, Widget.tally_eq, Nat.zero_add]

/-- A tree that is not too deep is not refused for its depth, whatever becomes of its bytes. -/
theorem result_ne_of_spelled {w : Widget} (hspelled : w.Spelled context q)
    (hheight : w.height ≤ context.maxDepth) (what : Limit) (n : Nat) :
    (compileQueue context q capacity).result ≠ .error (.limitExceeded what n) := by
  intro hresult
  have hstart : (Run.start q ⟨#[], none⟩).sink.capacity = none := rfl
  have hspelled : w.Spelled context (TokenSource.takeAll q) := by
    rw [takeAll_list]
    exact hspelled
  obtain ⟨run, hrun, -, -⟩ := (compile_eq_ok_iff hstart).mpr ⟨w, hheight, hspelled, rfl, rfl⟩
  have hok : (compileQueue context q none).result = .ok () := by
    unfold compileQueue Compile.outcome
    rw [hrun]
  rcases compileQueue_unbounded context q capacity with hfull | ⟨hunbounded, -⟩
  · rw [hresult] at hfull
    cases hfull
  · rw [hok, hresult] at hunbounded
    cases hunbounded

end Documents

section CutOffs

variable (symbols : SymbolTables) (bindings : Bindings) (q : List Token) (capacity : Option Nat)
  {limit limit' : Nat}

/-- A compilation is cut off by its limit, or it is the same under every greater one. -/
theorem compileQueue_cutOff (hlimit : limit ≤ limit') :
    compileQueue ⟨symbols, bindings, limit'⟩ q capacity =
      compileQueue ⟨symbols, bindings, limit⟩ q capacity ∨
      (compileQueue ⟨symbols, bindings, limit⟩ q capacity).result =
          .error (.limitExceeded .nestingDepth limit) ∧
        (compileQueue ⟨symbols, bindings, limit⟩ q capacity).run.written <+:
          (compileQueue ⟨symbols, bindings, limit'⟩ q capacity).run.written := by
  rcases cutOff_compile symbols bindings hlimit (.start q ⟨#[], capacity⟩) with
    heq | ⟨run, heq, hprefix⟩
  · left
    unfold compileQueue Compile.outcome
    rw [heq]
  · right
    have hrun : compileQueue ⟨symbols, bindings, limit⟩ q capacity = _ := outcome_of_error heq
    have hrun' : (compileQueue ⟨symbols, bindings, limit'⟩ q capacity).run = _ := run_outcome _ _
    rw [hrun, hrun']
    exact ⟨rfl, hprefix⟩

variable {symbols bindings q capacity}

/-- What compiles under some limit compiles under those that its depth does not exceed. -/
theorem compileQueue_ok_iff
    (h : (compileQueue ⟨symbols, bindings, limit⟩ q capacity).result = .ok ()) :
    (compileQueue ⟨symbols, bindings, limit'⟩ q capacity).result = .ok () ↔
      (compileQueue ⟨symbols, bindings, limit⟩ q capacity).run.stats.maxDepth ≤ limit' := by
  obtain ⟨w, hheight, hspelled, hdepth⟩ := exists_spelled_of_ok h
  have hheight : w.height ≤ limit := hheight
  rcases Nat.le_total limit limit' with hle | hle
  · rcases compileQueue_cutOff symbols bindings q capacity hle with heq | ⟨hcut, -⟩
    · rw [heq, hdepth]
      exact iff_of_true h (Nat.le_trans hheight hle)
    · rw [h] at hcut
      cases hcut
  · rcases compileQueue_cutOff symbols bindings q capacity hle with heq | ⟨hcut, -⟩
    · -- the lower limit changes nothing, so the depth that was found is within it
      rw [heq] at h ⊢
      obtain ⟨w', hheight', -, hdepth'⟩ := exists_spelled_of_ok h
      rw [hdepth']
      exact iff_of_true h hheight'
    · -- the lower limit stops the compilation, so the tree must be too deep for it
      have hspelled' : w.Spelled ⟨symbols, bindings, limit'⟩ q := Widget.spelled_under w hspelled
      rw [hdepth, hcut]
      refine iff_of_false (fun h => by cases h) fun hle' => ?_
      exact result_ne_of_spelled hspelled' hle' _ _ hcut

end CutOffs

/-- **The limit on the depth is a pure cut-off.**  A compilation that its limit does not stop is the
same under every greater limit: what is written, counted and left of the tokens, and how it ends.
One that its limit stops has written the beginning of what is written under a greater limit.  So a
document that compiles under some limit, and is found to be of some depth, compiles under exactly
the limits from that depth on; every lower limit stops it. -/
theorem compile_maxDepth_cutoff (symbols : SymbolTables) (bindings : Bindings) (q : List Token)
    (capacity : Option Nat) :
    let under := fun limit => compileQueue ⟨symbols, bindings, limit⟩ q capacity
    (∀ limit limit', limit ≤ limit' →
      ((∀ what n, (under limit).result ≠ .error (.limitExceeded what n)) →
        under limit' = under limit) ∧
      ∀ what n, (under limit).result = .error (.limitExceeded what n) →
        (under limit).run.written <+: (under limit').run.written) ∧
    ∀ limit, (under limit).result = .ok () → ∀ limit',
      ((under limit').result = .ok () ↔ (under limit).run.stats.maxDepth ≤ limit') ∧
      (limit' < (under limit).run.stats.maxDepth →
        (under limit').result = .error (.limitExceeded .nestingDepth limit')) := by
  intro under
  refine ⟨?_, ?_⟩
  · intro limit limit' hlimit
    rcases compileQueue_cutOff symbols bindings q capacity hlimit with heq | ⟨hcut, hprefix⟩
    · have heq : under limit' = under limit := heq
      exact ⟨fun _ => heq, fun _ _ _ => ⟨[], by rw [List.append_nil, heq]⟩⟩
    · exact ⟨fun hnot => absurd hcut (hnot _ _), fun _ _ _ => hprefix⟩
  · intro limit hok limit'
    refine ⟨compileQueue_ok_iff hok, fun hlt => ?_⟩
    have hbad : (under limit').result ≠ .ok () := fun hok' =>
      Nat.not_le.mpr hlt ((compileQueue_ok_iff hok).mp hok')
    have hlimit : (under limit).run.stats.maxDepth ≤ limit := (compileQueue_ok_iff hok).mp hok
    rcases compileQueue_cutOff symbols bindings q capacity
      (Nat.le_of_lt (Nat.lt_of_lt_of_le hlt hlimit)) with heq | ⟨hcut, -⟩
    · have heq : under limit = under limit' := heq
      rw [← heq] at hbad
      exact absurd hok hbad
    · exact hcut

/-- A panel inside a panel, after a margin. -/
def nestedPanels : List Token :=
  (tokenize "Panel \x7b margin: 4; Panel \x7b\x7d \x7d").dropLast

/-- Limit 1 stops the inner panel after the zero that ends the properties of the outer one; limit 2
does not stop it, and limit 3 makes no difference to that. -/
theorem compile_maxDepth_cutoff_nested :
    let under := fun limit => compileQueue ⟨.shipped, .empty, limit⟩ nestedPanels none
    (under 2).result = .ok () ∧ (under 2).run.stats.maxDepth = 2 ∧ under 3 = under 2 ∧
      (under 1).result = .error (.limitExceeded .nestingDepth 1) ∧
        (under 1).run.written = [17, 3, 4, 4, 4, 4, 0] ∧
          (under 1).run.written <+: (under 2).run.written := by
  intro under
  obtain ⟨hcut, hexact⟩ := compile_maxDepth_cutoff .shipped .empty nestedPanels none
  have hok : (under 2).result = .ok () := by decide +kernel
  have hdepth : (under 2).run.stats.maxDepth = 2 := by decide +kernel
  have hstopped : (under 1).result = .error (.limitExceeded .nestingDepth 1) :=
    (hexact 2 hok 1).2 (by rw [hdepth]; decide)
  have hfree : ∀ what n, (under 2).result ≠ .error (.limitExceeded what n) := by
    intro what n
    rw [hok]
    exact fun h => by cases h
  exact ⟨hok, hdepth, (hcut 2 3 (by decide)).1 hfree, hstopped, by decide +kernel,
    (hcut 1 2 (by decide)).2 _ _ hstopped⟩

end Document

end WidgetLayout
