/-
The compiler looks at most one token ahead and never revises.

Let tokens `r` or tokens `r'` follow those that a run has ahead, and let the two begin alike.  An
action that takes only tokens of the run cannot tell them apart: it may look at the first token that
follows, which is the same, and it comes to the same end with what follows still untouched.  An
action that goes on into `r` leaves less than `r`, and nothing gives it back.  `Parted` says that it
is one or the other.  Everything that compiles is composed of a few primitive actions, so it is
enough to see this of those, and that it is kept by sequences and loops.
-/
import WidgetLayout.Proofs.TokenPrefix

namespace WidgetLayout

open WidgetLayout.Progress

namespace Compile

variable {α β : Type} {r r' : List Token}

/-- What an action comes to where `r` follows and where `r'` follows: the same, with all that
follows left, or it went on into `r`. -/
inductive Parted (r r' : List Token) :
    EStateM.Result Error (Run (List Token)) α → EStateM.Result Error (Run (List Token)) α → Prop
  | same (res : EStateM.Result Error (Run (List Token)) α) :
      Parted r r' (resume (Run.followed r) res) (resume (Run.followed r') res)
  | beyond {res : EStateM.Result Error (Run (List Token)) α}
      (h : (left res).source.length < r.length)
      (res' : EStateM.Result Error (Run (List Token)) α) : Parted r r' res res'

theorem Parted.bind {m : Compile (List Token) α} {f : α → Compile (List Token) β}
    {x x' : Run (List Token)} (hm : Parted r r' (m x) (m x')) (hkeeps : ∀ a, Keeps (f a))
    (hf : ∀ (a : α) (y : Run (List Token)), m x = .ok a (y.followed r) →
      Parted r r' (f a (y.followed r)) (f a (y.followed r'))) :
    Parted r r' ((m >>= f) x) ((m >>= f) x') := by
  generalize hr : m x = res at hm
  generalize hr' : m x' = res' at hm
  cases hm with
  | same res =>
      cases res with
      | ok a y =>
          rw [bind_of_ok hr, bind_of_ok hr']
          exact hf a y hr
      | error e y =>
          rw [bind_of_error hr, bind_of_error hr']
          exact .same (.error e y)
  | beyond hlt =>
      refine .beyond ?_ _
      cases res with
      | ok a y =>
          rw [bind_of_ok hr]
          exact Nat.lt_of_le_of_lt (hkeeps a y) hlt
      | error e y =>
          rw [bind_of_error hr]
          exact hlt

/-- Looking shows the same token, whichever tokens follow. -/
theorem parted_peek (hhead : r'.head? = r.head?) (run : Run (List Token)) :
    Parted r r' (peek (run.followed r)) (peek (run.followed r')) := by
  have hfront : (run.source ++ r').head? = (run.source ++ r).head? := by
    rw [List.head?_append, List.head?_append, hhead]
  have hpeek : peek (run.followed r') = .ok (run.source ++ r).head? (run.followed r') :=
    congrArg (fun front => EStateM.Result.ok front (run.followed r')) hfront
  rw [hpeek]
  exact .same (.ok (run.source ++ r).head? run)

/-- Where the run has no token ahead, the one that is taken belongs to what follows. -/
theorem parted_expect (hhead : r'.head? = r.head?) (run : Run (List Token)) :
    Parted r r' (expect (run.followed r)) (expect (run.followed r')) := by
  obtain ⟨source, sink, stats, trace⟩ := run
  cases source with
  | cons t rest => exact .same (expect ⟨t :: rest, sink, stats, trace⟩)
  | nil =>
      cases r with
      | cons t rest =>
          refine .beyond ?_ _
          exact Nat.lt_succ_self rest.length
      | nil =>
          obtain rfl : r' = [] := List.head?_eq_none_iff.mp hhead
          exact .same (expect ⟨[], sink, stats, trace⟩)

theorem keeps_rest (step : β → Compile (List Token) (β ⊕ α))
    (hstep : ∀ b, Advances (step b)) (r : β ⊕ α) :
    Keeps (match r with
      | .inl b => iterate step hstep b
      | .inr a => pure a : Compile (List Token) α) := by
  cases r with
  | inl b => exact keeps_iterate step hstep b
  | inr a => exact keeps_pure a

theorem parted_iterate {step : β → Compile (List Token) (β ⊕ α)} {hstep : ∀ b, Advances (step b)}
    (h : ∀ (b : β) (run : Run (List Token)),
      Parted r r' (step b (run.followed r)) (step b (run.followed r')))
    (b : β) (run : Run (List Token)) :
    Parted r r' (iterate step hstep b (run.followed r))
      (iterate step hstep b (run.followed r')) := by
  have hkeeps := keeps_rest step hstep
  generalize hx : run.followed r = x
  -- the induction is on the rounds of the first run
  induction b, x using iterateOn.induct step hstep generalizing run with
  | case1 b x e y hs =>
      subst hx
      rw [iterate_eq_bind]
      refine (h b run).bind hkeeps fun res z hr => ?_
      rw [hs] at hr
      cases hr
  | case2 b x a y hs =>
      subst hx
      rw [iterate_eq_bind]
      refine (h b run).bind hkeeps fun res z hr => ?_
      rw [hs] at hr
      cases hr
      exact .same (.ok a z)
  | case3 b x b' y hs ih =>
      subst hx
      rw [iterate_eq_bind]
      refine (h b run).bind hkeeps fun res z hr => ?_
      rw [hs] at hr
      cases hr
      exact ih z rfl

theorem Composed.keeps {w : Prop} {E : Error → Prop} {m : OnAny α} (h : Composed w E m) (σ : Type)
    [TokenSource σ] : Keeps (m σ) :=
  h.source_rel (R := fun s s' => TokenSource.size s' ≤ TokenSource.size s) (fun _ => Nat.le_refl _)
    (fun h h' => Nat.le_trans h' h) TokenSource.size_peek_le TokenSource.size_take_le

/-- **What an action does is fixed by the tokens that it takes and the one after them.** -/
theorem Composed.parted {w : Prop} {E : Error → Prop} {m : OnAny α} (h : Composed w E m)
    (hhead : r'.head? = r.head?) :
    ∀ run : Run (List Token),
      Parted r r' (m (List Token) (run.followed r)) (m (List Token) (run.followed r')) := by
  induction h with
  | pure a => exact fun run => .same (.ok a run)
  | throw e he => exact fun run => .same (.error e run)
  | write bs hw =>
      intro run
      show Parted r r' (Compile.write bs (run.followed r)) (Compile.write bs (run.followed r'))
      rw [write_followed, write_followed]
      exact .same _
  | record event => exact fun run => .same (Compile.record event run)
  | tally f => exact fun run => .same (Compile.tally f run)
  | peek => exact parted_peek hhead
  | expect => exact parted_expect hhead
  | bind _ hf ihm ihf =>
      exact fun run => (ihm run).bind (fun a => (hf a).keeps (List Token)) fun a y _ => ihf a y
  | iterate hadvances _ b ih => exact parted_iterate ih b

end Compile

namespace Document

open WidgetLayout.Compile

/-- **The compiler looks at most one token ahead and never revises.**  Where compiling a queue of
tokens stops, well or not, and leaves `r`, any other tokens that begin with the same token as `r`,
or are none as `r` is none, may stand in its place: they are left as they are, and what is written,
what is counted and how the compilation ends stay the same. -/
theorem compile_one_token_ahead (context : Context) (sink : Sink) (c r r' : List Token) :
    let o := (compile context).outcome (.start (c ++ r) sink)
    let o' := (compile context).outcome (.start (c ++ r') sink)
    o.run.source = r → r'.head? = r.head? →
      o'.run.source = r' ∧ o'.run.sink = o.run.sink ∧ o'.run.stats = o.run.stats ∧
        o'.result = o.result := by
  intro o o' hleft hhead
  have hparted : Parted r r' (compile context (.start (c ++ r) sink))
      (compile context (.start (c ++ r') sink)) :=
    (composed_compile context).parted hhead (.start c sink)
  rw [run_outcome] at hleft
  simp only [o, o', Compile.outcome]
  generalize compile context (.start (c ++ r) sink) = res at hparted hleft
  generalize compile context (.start (c ++ r') sink) = res' at hparted
  cases hparted with
  | beyond hlt =>
      rw [hleft] at hlt
      exact absurd hlt (Nat.lt_irrefl _)
  | same res =>
      cases res with
      | ok u y =>
          have hnil : y.source = [] := List.append_left_eq_self.mp hleft
          exact ⟨by simp [resume, Run.followed, hnil], rfl, rfl, rfl⟩
      | error e y =>
          have hnil : y.source = [] := List.append_left_eq_self.mp hleft
          exact ⟨by simp [resume, Run.followed, hnil], rfl, rfl, rfl⟩

/-- A panel that begins with a name that is neither a property nor a widget. -/
def panelWithTypo : List Token := (tokenize "Panel \x7b colour").dropLast

/-- The colon after an unknown name makes it a property that is unknown; what follows the colon is
not seen. -/
theorem compile_one_token_ahead_typo :
    let colon : Token := ⟨.colon, ":", ⟨1, 15⟩⟩
    let r := [colon, ⟨.identifier, "red", ⟨1, 17⟩⟩]
    let r' := [colon, ⟨.closeBrace, "\x7d", ⟨1, 16⟩⟩, ⟨.invalid, "?", ⟨2, 1⟩⟩]
    let o := (compile ⟨.shipped, .empty, 64⟩).outcome (.start (panelWithTypo ++ r) .unbounded)
    let o' := (compile ⟨.shipped, .empty, 64⟩).outcome (.start (panelWithTypo ++ r') .unbounded)
    o.run.source = r ∧ o'.run.source = r' ∧ o'.run.sink = o.run.sink ∧ o'.run.stats = o.run.stats ∧
      o'.result = .error (.unknownSymbol ⟨1, 9⟩ .property "colour") := by
  intro colon r r' o o'
  have hleft : o.run.source = r := by decide +kernel
  have hresult : o.result = .error (.unknownSymbol ⟨1, 9⟩ .property "colour") := by decide +kernel
  obtain ⟨hsource, hsink, hstats, hsame⟩ :=
    compile_one_token_ahead ⟨.shipped, .empty, 64⟩ .unbounded panelWithTypo r r' hleft rfl
  exact ⟨hleft, hsource, hsink, hstats, hsame.trans hresult⟩

end Document

end WidgetLayout
