/-
What actions do with the beginning of their input.

Input may end too early.  A map `more` puts at the end of a state what is missing there, so a state
holds the beginning of the input that `more` makes of it.  `Continues` says of an action that it
cannot tell the two apart while there is input: either it does the same with both, or the shorter
input runs out, or it fails with both.  That is kept by sequences and by iteration, so it is proved
of the primitive actions and of those that look ahead, and the rest follows.

What an action accepts is then prefix-free, and what it does not find at the end of its input is the
only thing that it can complain about.
-/
import WidgetLayout.Proofs.Tape

namespace WidgetLayout.Progress

variable {ε s α β : Type} {more : s → s} {Starved : ε → s → Prop}

/-- What an action came to, with the rest of the input at the end of its state. -/
def resume (more : s → s) : EStateM.Result ε s α → EStateM.Result ε s α
  | .ok a x => .ok a (more x)
  | .error e x => .error e (more x)

/-- What an action comes to with the beginning of an input, and with the whole of it. -/
inductive Truncated (more : s → s) (Starved : ε → s → Prop) :
    EStateM.Result ε s α → EStateM.Result ε s α → Prop
  | same (r : EStateM.Result ε s α) : Truncated more Starved r (resume more r)
  | starved {e : ε} {x : s} (h : Starved e x) (r : EStateM.Result ε s α) :
      Truncated more Starved (.error e x) r
  | fails (e e' : ε) (x x' : s) : Truncated more Starved (.error e x) (.error e' x')

namespace Truncated

/-- What succeeds with the beginning of an input leaves the rest of it. -/
theorem of_ok {a : α} {x : s} {r : EStateM.Result ε s α} (h : Truncated more Starved (.ok a x) r) :
    r = .ok a (more x) := by
  cases h with
  | same => rfl

/-- What succeeds with the whole of an input needs all that it takes. -/
theorem to_ok {a : α} {y : s} {r : EStateM.Result ε s α} (h : Truncated more Starved r (.ok a y)) :
    (∃ x, r = .ok a x ∧ y = more x) ∨ ∃ e x, r = .error e x ∧ Starved e x := by
  generalize hr : EStateM.Result.ok a y = r' at h
  cases h with
  | same r =>
      cases r with
      | ok b x =>
          obtain ⟨rfl, rfl⟩ := EStateM.Result.ok.inj hr
          exact .inl ⟨x, rfl, rfl⟩
      | error e x => cases hr
  | starved hstarved => exact .inr ⟨_, _, rfl, hstarved⟩
  | fails => cases hr

theorem bind {m m' : EStateM ε s α} {f f' : α → EStateM ε s β} {x x' : s}
    (hm : Truncated more Starved (m x) (m' x'))
    (hf : ∀ a y, m x = .ok a y → Truncated more Starved (f a y) (f' a (more y))) :
    Truncated more Starved ((m >>= f) x) ((m' >>= f') x') := by
  generalize hr : m x = r at hm
  generalize hr' : m' x' = r' at hm
  cases hm with
  | same =>
      cases r with
      | ok a y =>
          rw [bind_of_ok hr, bind_of_ok hr']
          exact hf a y hr
      | error e y =>
          rw [bind_of_error hr, bind_of_error hr']
          exact .same (.error e y)
  | starved hstarved =>
      rw [bind_of_error hr]
      exact .starved hstarved _
  | fails e e' y y' =>
      rw [bind_of_error hr, bind_of_error hr']
      exact .fails e e' y y'

end Truncated

/-- The action does not notice that its input is only the beginning of another one before it runs
out. -/
def Continues (more : s → s) (Starved : ε → s → Prop) (m : EStateM ε s α) : Prop :=
  ∀ x, Truncated more Starved (m x) (m (more x))

theorem continues_pure (a : α) : Continues more Starved (pure a : EStateM ε s α) :=
  fun x => .same (.ok a x)

theorem continues_throw (e : ε) : Continues more Starved (throw e : EStateM ε s α) :=
  fun x => .same (.error e x)

namespace Continues

variable {m : EStateM ε s α}

theorem bind {f : α → EStateM ε s β} (hm : Continues more Starved m)
    (hf : ∀ a, Continues more Starved (f a)) : Continues more Starved (m >>= f) :=
  fun x => (hm x).bind fun a y _ => hf a y

theorem map (hm : Continues more Starved m) (f : α → β) : Continues more Starved (f <$> m) :=
  hm.bind fun a => continues_pure (f a)

theorem ite {c : Prop} [Decidable c] {m' : EStateM ε s α} (hm : Continues more Starved m)
    (hm' : Continues more Starved m') : Continues more Starved (if c then m else m') := by
  by_cases hc : c
  · rw [if_pos hc]
    exact hm
  · rw [if_neg hc]
    exact hm'

end Continues

theorem continues_iterate [Measured s] {step : β → EStateM ε s (β ⊕ α)}
    {hstep : ∀ b, Advances (step b)} (h : ∀ b, Continues more Starved (step b)) (b : β) :
    Continues more Starved (iterate step hstep b) := by
  intro x
  -- the induction is on the rounds with the shorter input
  induction b, x using iterateOn.induct step hstep with
  | case1 b x e y hs =>
      rw [iterate_eq_bind]
      refine (h b x).bind fun r z hr => ?_
      rw [hs] at hr
      cases hr
  | case2 b x a y hs =>
      rw [iterate_eq_bind]
      refine (h b x).bind fun r z hr => ?_
      rw [hs] at hr
      cases hr
      exact continues_pure a y
  | case3 b x b' y hs ih =>
      rw [iterate_eq_bind]
      refine (h b x).bind fun r z hr => ?_
      rw [hs] at hr
      cases hr
      exact ih

end WidgetLayout.Progress
