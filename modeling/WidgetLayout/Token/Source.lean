/-
Token sources: streams of tokens that can be looked at one token ahead.

Everything that reads tokens asks three things of a source: the next token without taking it, the
next token taken, and where the source stands, which is only used to say where it ended.  `size`
bounds the number of tokens still to come.  Looking never raises it and taking a token lowers it, so
whatever takes a token in every round comes to an end.

A list of tokens is a source: its front is next, whatever its kind, and an empty list stands
nowhere.
-/
import WidgetLayout.Token

namespace WidgetLayout

/-- A stream of tokens with one token of lookahead. -/
class TokenSource (σ : Type) where
  /-- The next token, left in place; none at the end. -/
  peek : σ → Option Token × σ
  /-- The next token, taken; none at the end. -/
  take : σ → Option Token × σ
  /-- Where the stream stands. -/
  position : σ → Position
  /-- A bound on the number of tokens still to come. -/
  size : σ → Nat
  size_peek_le : ∀ s, size (peek s).2 ≤ size s
  size_take_le : ∀ s, size (take s).2 ≤ size s
  size_take_lt : ∀ s t, (take s).1 = some t → size (take s).2 < size s

instance : TokenSource (List Token) where
  peek ts := (ts.head?, ts)
  take ts := (ts.head?, ts.tail)
  position ts := (ts.head?.map Token.position).getD ⟨0, 0⟩
  size := List.length
  size_peek_le _ := Nat.le_refl _
  size_take_le ts := by simp
  size_take_lt ts t h := by
    cases ts with
    | nil => simp at h
    | cons t' rest => simp

/-- Takes every token that is left. -/
def TokenSource.takeAll {σ : Type} [TokenSource σ] (s : σ) : List Token :=
  match _h : take s with
  | (none, _) => []
  | (some t, s') => t :: takeAll s'
termination_by size s
decreasing_by
  have := size_take_lt s t (by rw [_h])
  rw [_h] at this
  exact this

end WidgetLayout
