/-
Progress: actions that use up what they work on.

A state that is worked off has a size.  An action keeps within bounds if it never leaves more than
it found, and it shrinks the state if it leaves less whenever it succeeds.  Both carry over to
sequences of actions.  A step that leaves less whenever it wants to go on can be repeated until it
says that it is done: the size of the state bounds the number of rounds, so `iterate` needs no other
bound.
-/

namespace WidgetLayout

/-- States of which there is more or less left. -/
class Measured (s : Type) where
  size : s → Nat

namespace Progress

variable {ε s α β : Type}

/-- The state that an action left behind. -/
def left : EStateM.Result ε s α → s
  | .ok _ state => state
  | .error _ state => state

variable [Measured s]

/-- The action leaves at most as much as there was. -/
def Keeps (m : EStateM ε s α) : Prop :=
  ∀ state, Measured.size (left (m state)) ≤ Measured.size state

/-- The action also leaves less when it succeeds. -/
def Shrinks (m : EStateM ε s α) : Prop :=
  Keeps m ∧ ∀ state a state', m state = .ok a state' → Measured.size state' < Measured.size state

/-- The step leaves at most as much as there was, and less when it wants to go on. -/
def Advances (m : EStateM ε s (β ⊕ α)) : Prop :=
  Keeps m ∧ ∀ state b state', m state = .ok (.inl b) state' →
    Measured.size state' < Measured.size state

theorem Shrinks.advances {m : EStateM ε s (β ⊕ α)} (h : Shrinks m) : Advances m :=
  ⟨h.1, fun state b state' => h.2 state (.inl b) state'⟩

theorem keeps_pure (a : α) : Keeps (pure a : EStateM ε s α) := fun _ => Nat.le_refl _

theorem keeps_throw (e : ε) : Keeps (throw e : EStateM ε s α) := fun _ => Nat.le_refl _

theorem keeps_bind {m : EStateM ε s α} {f : α → EStateM ε s β} (hm : Keeps m)
    (hf : ∀ a, Keeps (f a)) : Keeps (m >>= f) := by
  intro state
  have h := hm state
  simp only [bind, EStateM.bind]
  cases hr : m state with
  | ok a state' =>
      rw [hr] at h
      exact Nat.le_trans (hf a state') h
  | error e state' =>
      rw [hr] at h
      exact h

theorem keeps_map {f : α → β} {m : EStateM ε s α} (hm : Keeps m) : Keeps (f <$> m) := by
  intro state
  have h := hm state
  simp only [Functor.map, EStateM.map]
  cases hr : m state with
  | ok a state' =>
      rw [hr] at h
      exact h
  | error e state' =>
      rw [hr] at h
      exact h

theorem shrinks_bind {m : EStateM ε s α} {f : α → EStateM ε s β} (hm : Shrinks m)
    (hf : ∀ a, Keeps (f a)) : Shrinks (m >>= f) := by
  refine ⟨keeps_bind hm.1 hf, ?_⟩
  intro state b state' h
  simp only [bind, EStateM.bind] at h
  cases hr : m state with
  | ok a state'' =>
      simp only [hr] at h
      have hle := hf a state''
      rw [h] at hle
      exact Nat.lt_of_le_of_lt hle (hm.2 state a state'' hr)
  | error e state'' => simp [hr] at h

theorem shrinks_map {f : α → β} {m : EStateM ε s α} (hm : Shrinks m) : Shrinks (f <$> m) := by
  refine ⟨keeps_map hm.1, ?_⟩
  intro state b state' h
  simp only [Functor.map, EStateM.map] at h
  cases hr : m state with
  | ok a state'' =>
      simp only [hr, EStateM.Result.ok.injEq] at h
      exact h.2 ▸ hm.2 state a state'' hr
  | error e state'' => simp [hr] at h

theorem shrinks_of_keeps_bind {m : EStateM ε s α} {f : α → EStateM ε s β} (hm : Keeps m)
    (hf : ∀ a, Shrinks (f a)) : Shrinks (m >>= f) := by
  refine ⟨keeps_bind hm fun a => (hf a).1, ?_⟩
  intro state b state' h
  have hle := hm state
  simp only [bind, EStateM.bind] at h
  cases hr : m state with
  | ok a state'' =>
      simp only [hr] at h hle
      exact Nat.lt_of_lt_of_le ((hf a).2 state'' b state' h) hle
  | error e state'' => simp [hr] at h

theorem advances_done (a : α) : Advances (pure (.inr a) : EStateM ε s (β ⊕ α)) :=
  ⟨keeps_pure _, fun _ _ _ h => nomatch h⟩

theorem advances_bind {γ : Type} {m : EStateM ε s γ} {f : γ → EStateM ε s (β ⊕ α)} (hm : Keeps m)
    (hf : ∀ c, Advances (f c)) : Advances (m >>= f) := by
  refine ⟨keeps_bind hm fun c => (hf c).1, ?_⟩
  intro state b state' h
  have hle := hm state
  simp only [bind, EStateM.bind] at h
  cases hr : m state with
  | ok c state'' =>
      simp only [hr] at h hle
      exact Nat.lt_of_lt_of_le ((hf c).2 state'' b state' h) hle
  | error e state'' => simp [hr] at h

/-- Repeats a step until it says that it is done; every step but the last leaves less to do. -/
def iterateOn (step : β → EStateM ε s (β ⊕ α)) (hstep : ∀ b, Advances (step b))
    (b : β) (state : s) : EStateM.Result ε s α :=
  match _h : step b state with
  | .error e state' => .error e state'
  | .ok (.inr a) state' => .ok a state'
  | .ok (.inl b') state' => iterateOn step hstep b' state'
termination_by Measured.size state
decreasing_by exact (hstep b).2 state _ state' _h

/-- `iterateOn` as an action. -/
def iterate (step : β → EStateM ε s (β ⊕ α)) (hstep : ∀ b, Advances (step b)) (b : β) :
    EStateM ε s α :=
  fun state => iterateOn step hstep b state

theorem keeps_iterate (step : β → EStateM ε s (β ⊕ α)) (hstep : ∀ b, Advances (step b)) (b : β) :
    Keeps (iterate step hstep b) := by
  intro state
  show Measured.size (left (iterateOn step hstep b state)) ≤ Measured.size state
  fun_induction iterateOn step hstep b state with
  | case1 b state e state' h =>
      have hkeeps := (hstep b).1 state
      rw [h] at hkeeps
      exact hkeeps
  | case2 b state a state' h =>
      have hkeeps := (hstep b).1 state
      rw [h] at hkeeps
      exact hkeeps
  | case3 b state b' state' h ih =>
      exact Nat.le_trans ih (Nat.le_of_lt ((hstep b).2 state _ state' h))

end Progress

end WidgetLayout
