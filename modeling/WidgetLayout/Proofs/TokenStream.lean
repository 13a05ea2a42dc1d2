/-
A token source stands for the list of its tokens.

`takeAll` is that list.  Taking a token takes its head, by definition; looking at a token must show
the head and change nothing, and no token may come after the end, which is what `LawfulTokenSource`
asks.  Lists are lawful, and so are lexers: a token that was looked at is held and handed out next,
whether it is the end or not.  The tokens of a whole source are those that its lexer hands out, and
then the end (`tokens_eq`).
-/
import WidgetLayout.Token.Lexer

namespace WidgetLayout

/-- What a token is, wherever it stands. -/
def Token.face (t : Token) : TokenKind × String := (t.kind, t.text)

namespace TokenSource

variable {σ : Type} [TokenSource σ]

theorem takeAll_of_some {s s' : σ} {t : Token} (h : take s = (some t, s')) :
    takeAll s = t :: takeAll s' := by
  rw [takeAll]
  split
  · rename_i heq
    rw [h] at heq
    cases heq
  · rename_i heq
    rw [h] at heq
    obtain ⟨ht, rfl⟩ := Prod.mk.inj heq
    obtain rfl := Option.some.inj ht
    rfl

theorem takeAll_of_none {s s' : σ} (h : take s = (none, s')) : takeAll s = [] := by
  rw [takeAll]
  split
  · rfl
  · rename_i heq
    rw [h] at heq
    cases heq

/-- What is taken from a source depends only on what it hands out next. -/
theorem takeAll_congr {s s' : σ} (h : take s = take s') : takeAll s = takeAll s' := by
  rcases hs : take s' with ⟨_ | t, s''⟩
  · rw [takeAll_of_none hs, takeAll_of_none (h.trans hs)]
  · rw [takeAll_of_some hs, takeAll_of_some (h.trans hs)]

/-- The first token of a source, if it has one, is the one that is taken. -/
theorem take_fst (s : σ) : (take s).1 = (takeAll s).head? := by
  rcases hs : take s with ⟨_ | t, s'⟩
  · rw [takeAll_of_none hs]
    rfl
  · rw [takeAll_of_some hs]
    rfl

end TokenSource

open TokenSource

/-- A source in which looking ahead shows what is taken next, and takes nothing, and in which the
end stays the end. -/
class LawfulTokenSource (σ : Type) [TokenSource σ] : Prop where
  peek_fst : ∀ s : σ, (peek s).1 = (take s).1
  take_peek : ∀ s : σ, take (peek s).2 = take s
  take_end : ∀ s : σ, (take s).1 = none → (take (take s).2).1 = none

theorem peek_eq_head? {σ : Type} [TokenSource σ] [LawfulTokenSource σ] (s : σ) :
    (peek s).1 = (takeAll s).head? := by
  rw [LawfulTokenSource.peek_fst, take_fst]

theorem takeAll_peek {σ : Type} [TokenSource σ] [LawfulTokenSource σ] (s : σ) :
    takeAll (peek s).2 = takeAll s :=
  takeAll_congr (LawfulTokenSource.take_peek s)

/-- Taking a token leaves the others; where there is none, there is still none. -/
theorem takeAll_take {σ : Type} [TokenSource σ] [LawfulTokenSource σ] (s : σ) :
    takeAll (take s).2 = (takeAll s).tail := by
  rcases hs : take s with ⟨_ | t, s'⟩
  · have hend := LawfulTokenSource.take_end s (by rw [hs])
    rw [hs, take_fst, List.head?_eq_none_iff] at hend
    rw [hend, takeAll_of_none hs, List.tail_nil]
  · rw [takeAll_of_some hs, List.tail_cons]

/-! ### Lists -/

instance : LawfulTokenSource (List Token) where
  peek_fst _ := rfl
  take_peek _ := rfl
  take_end ts h := by
    obtain rfl : ts = [] := List.head?_eq_none_iff.mp h
    rfl

theorem takeAll_list (ts : List Token) : takeAll ts = ts := by
  induction ts with
  | nil => exact takeAll_of_none rfl
  | cons t ts ih =>
      have htake : take (t :: ts) = (some t, ts) := rfl
      rw [takeAll_of_some htake, ih]

/-! ### Lexers -/

namespace Lexer

/-- A token that was looked at is the next one to be handed out. -/
theorem next_peek (l : Lexer) : l.peek.2.next = l.next := by
  have hnone := lookahead_next l
  unfold peek
  rw [next]
  dsimp only
  rw [← hnone]

theorem take_peek (l : Lexer) : l.peek.2.take = l.take := by
  unfold take
  rw [next_peek]

/-- At the end a token is only looked at, even when it is asked for. -/
theorem take_eq_peek {l : Lexer} (h : l.take.1 = none) : l.take = l.peek := by
  by_cases hk : l.next.1.kind = .endOfFile
  · simp only [peek, take, if_pos hk]
  · rw [take, if_neg hk] at h
    cases h

instance : LawfulTokenSource Lexer where
  peek_fst l := by
    show l.peek.1 = l.take.1
    by_cases hk : l.next.1.kind = .endOfFile
    · simp only [peek, take, if_pos hk]
    · simp only [peek, take, if_neg hk]
  take_peek := take_peek
  take_end l h := by
    show l.take.2.take.1 = none
    rw [take_eq_peek h, take_peek]
    exact h

/-- A lexer hands out its tokens, and then the end. -/
theorem tokens_eq (l : Lexer) : ∃ t, t.kind = .endOfFile ∧ l.tokens.1 = takeAll l ++ [t] := by
  fun_induction tokens l with
  | case1 l t l' hnext hk =>
      have htake : take l = (none, { l' with lookahead := some t }) := by
        show l.take = _
        rw [take, hnext]
        exact if_pos hk
      exact ⟨t, hk, by rw [takeAll_of_none htake]; rfl⟩
  | case2 l t l' hnext hk ts l'' hrest ih =>
      have htake : take l = (some t, l') := by
        show l.take = _
        rw [take, hnext]
        exact if_neg hk
      obtain ⟨e, he, heq⟩ := ih
      rw [hrest] at heq
      exact ⟨e, he, by rw [takeAll_of_some htake]; exact congrArg (t :: ·) heq⟩

end Lexer

/-- The tokens of a source are those of its lexer but for the end. -/
theorem dropLast_tokenize (source : String) :
    (tokenize source).dropLast = takeAll (Lexer.ofSource source) := by
  obtain ⟨t, -, heq⟩ := Lexer.tokens_eq (.ofSource source)
  rw [tokenize, heq, List.dropLast_concat]

end WidgetLayout
