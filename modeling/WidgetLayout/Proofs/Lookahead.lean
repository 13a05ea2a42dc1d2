/-
Looking ahead does not disturb the tokens of a lexer.

A lexer may be asked for the next token in several ways, some of which take it, and for the place
where it stands, in any order.  What it will hand out depends only on its next token (`Yields`), and
each call either leaves that as it is or moves on by one token.  At the end the call that forgets
the end, `next`, can do so because scanning finds it again in the same place: that is why a lexer
that holds the end must have nothing left to scan (`Sound`).
-/
import WidgetLayout.Compilation
import WidgetLayout.Proofs.Form
import WidgetLayout.Proofs.Scanning
import WidgetLayout.Proofs.TokenStream

namespace WidgetLayout

/-! ### The order of places -/

/-- Places are in order line by line, and in a line by column. -/
instance : LE Position := ⟨fun p q => p.line < q.line ∨ p.line = q.line ∧ p.column ≤ q.column⟩

namespace Position

theorem le_iff {p q : Position} : p ≤ q ↔ p.line < q.line ∨ p.line = q.line ∧ p.column ≤ q.column :=
  Iff.rfl

theorem le_rfl {p : Position} : p ≤ p := .inr ⟨rfl, Nat.le_refl _⟩

theorem le_trans {p q r : Position} (hpq : p ≤ q) (hqr : q ≤ r) : p ≤ r := by
  rw [le_iff] at hpq hqr ⊢
  omega

theorem le_next (p : Position) (c : Char) : p ≤ p.next c := by
  unfold next
  split
  · exact .inl (Nat.lt_succ_self _)
  · exact .inr ⟨rfl, Nat.le_succ _⟩

theorem le_after (p : Position) (cs : List Char) : p ≤ p.after cs := by
  induction cs generalizing p with
  | nil => exact le_rfl
  | cons c cs ih => exact le_trans (le_next p c) (ih (p.next c))

end Position

namespace Lexer

/-! ### Scanning -/

theorem position_tokenAt (start : Position) (cs : List Char) :
    (tokenAt start cs).1.position = start := by
  cases cs with
  | nil => rfl
  | cons c cs => rfl

theorem le_tokenAt (start : Position) (cs : List Char) : start ≤ (tokenAt start cs).2.2 := by
  cases cs with
  | nil => exact Position.le_rfl
  | cons c cs => exact Position.le_after _ _

theorem cursor_le_scan (l : Lexer) : l.cursor ≤ l.scan.1.position := by
  have hposition : l.scan.1.position = l.cursor.after (splitGap l.rest).1 := position_tokenAt _ _
  rw [hposition]
  exact Position.le_after _ _

theorem scan_le_cursor (l : Lexer) : l.scan.1.position ≤ l.scan.2.cursor := by
  have hposition : l.scan.1.position = l.cursor.after (splitGap l.rest).1 := position_tokenAt _ _
  rw [hposition]
  exact le_tokenAt _ _

/-- The end is found only where nothing is left to scan. -/
theorem scan_end {l : Lexer} (h : l.scan.1.kind = .endOfFile) :
    l.scan.2.rest = [] ∧ l.scan.1 = ⟨.endOfFile, "", l.scan.2.cursor⟩ := by
  have hnone := gapPiece?_splitGap l.rest
  simp only [scan] at h ⊢
  cases hafter : (splitGap l.rest).2 with
  | nil => exact ⟨rfl, rfl⟩
  | cons c cs =>
      rw [hafter] at h hnone
      exact absurd h (spells_splitLexeme hnone).kind_ne

/-- With nothing left to scan, the end is found where the lexer stands. -/
theorem scan_nil {l : Lexer} (h : l.rest = []) : l.scan = (⟨.endOfFile, "", l.cursor⟩, l) := by
  obtain ⟨rest, cursor, lookahead⟩ := l
  obtain rfl : rest = [] := h
  have hgap : splitGap [] = ([], []) := by
    rw [splitGap]
    rfl
  simp only [scan, hgap, tokenAt, Position.after_nil]

theorem position_le_next (l : Lexer) : l.position ≤ l.next.1.position := by
  unfold position next
  cases l.lookahead with
  | some t => exact Position.le_rfl
  | none => exact cursor_le_scan l

/-! ### Lexers that hold a token

The place that such a lexer reports is that of the token it holds, although it has scanned beyond
it. -/

/-- A token that is held stands before what has not been scanned; where it is the end, that is
nothing. -/
structure Sound (l : Lexer) : Prop where
  held_le : ∀ t, l.lookahead = some t → t.position ≤ l.cursor
  held_end : ∀ t, l.lookahead = some t → t.kind = .endOfFile →
    l.rest = [] ∧ t = ⟨.endOfFile, "", l.cursor⟩

theorem sound_of_lookahead {l : Lexer} (h : l.lookahead = none) : l.Sound := by
  constructor
  · intro t ht
    rw [h] at ht
    cases ht
  · intro t ht
    rw [h] at ht
    cases ht

theorem sound_next (l : Lexer) : l.next.2.Sound := sound_of_lookahead (lookahead_next l)

namespace Sound

variable {l : Lexer}

theorem next_le_cursor (hl : l.Sound) : l.next.1.position ≤ l.next.2.cursor := by
  unfold next
  cases hheld : l.lookahead with
  | some t => exact hl.held_le t hheld
  | none => exact scan_le_cursor l

theorem next_end (hl : l.Sound) (hk : l.next.1.kind = .endOfFile) :
    l.next.2.rest = [] ∧ l.next.1 = ⟨.endOfFile, "", l.next.2.cursor⟩ := by
  unfold next at hk ⊢
  cases hheld : l.lookahead with
  | some t =>
      rw [hheld] at hk
      exact hl.held_end t hheld hk
  | none =>
      rw [hheld] at hk
      exact scan_end hk

/-- The end is found again when it was handed out. -/
theorem next_next (hl : l.Sound) (hk : l.next.1.kind = .endOfFile) : l.next.2.next = l.next := by
  obtain ⟨hrest, hend⟩ := hl.next_end hk
  rw [next_of_lookahead (lookahead_next l), scan_nil hrest, ← hend]

theorem peek (hl : l.Sound) : l.peek.2.Sound := by
  constructor
  · rintro t ⟨⟩
    exact hl.next_le_cursor
  · rintro t ⟨⟩ hk
    exact hl.next_end hk

end Sound

/-! ### What a lexer hands out

Two lexers may differ in whether they hold their next token already, and still hand out the same.
-/

/-- A lexer hands out tokens, none of which is the end, and then the end. -/
inductive Yields : Lexer → List Token → Token → Prop
  | finish {l : Lexer} (hk : l.next.1.kind = .endOfFile) : Yields l [] l.next.1
  | token {l : Lexer} {ts : List Token} {eof : Token} (hk : l.next.1.kind ≠ .endOfFile)
      (h : Yields l.next.2 ts eof) : Yields l (l.next.1 :: ts) eof

theorem yields_tokens (l : Lexer) : ∃ ts eof, l.Yields ts eof ∧ l.tokens.1 = ts ++ [eof] := by
  fun_induction tokens l with
  | case1 l t l' hnext hk =>
      have ht : l.next.1 = t := by rw [hnext]
      subst ht
      exact ⟨[], _, .finish hk, rfl⟩
  | case2 l t l' hnext hk ts l'' hrest ih =>
      obtain ⟨ts', eof, hyields, heq⟩ := ih
      have ht : l.next.1 = t := by rw [hnext]
      have hl' : l.next.2 = l' := by rw [hnext]
      subst ht hl'
      rw [hrest] at heq
      have heq : ts = ts' ++ [eof] := heq
      exact ⟨_ :: ts', eof, .token hk hyields, by rw [heq]; rfl⟩

namespace Yields

variable {l l' : Lexer} {left : List Token} {eof : Token}

theorem congr (h : l.Yields left eof) (heq : l'.next = l.next) : l'.Yields left eof := by
  cases h with
  | finish hk =>
      rw [← heq] at hk ⊢
      exact .finish hk
  | token hk h =>
      rw [← heq] at hk h ⊢
      exact .token hk h

theorem eof_kind (h : l.Yields left eof) : eof.kind = .endOfFile := by
  induction h with
  | finish hk => exact hk
  | token _ _ ih => exact ih

theorem peek_fst (h : l.Yields left eof) : l.peek.1 = left.head? := by
  cases h with
  | finish hk => exact if_pos hk
  | token hk h => exact if_neg hk

end Yields

/-! ### Calls

All that a lexer can be asked is one type, so calls in any order are a list of them. -/

/-- What a lexer may be asked. -/
inductive Call
  | peek
  | take
  | next
  | expect
  | accept (kind : TokenKind)
  | position

/-- What it replies. -/
inductive Reply
  | front (t : Option Token)
  | token (t : Token)
  | checked (r : Except Error Token)
  | place (p : Position)
deriving DecidableEq

/-- What an action of a compilation makes of a lexer. -/
def check (m : Compile Lexer Token) (l : Lexer) : Reply × Lexer :=
  match m (.start l .unbounded) with
  | .ok t run => (.checked (.ok t), run.source)
  | .error e run => (.checked (.error e), run.source)

namespace Call

/-- The reply to a call, and the lexer after it. -/
def ask : Call → Lexer → Reply × Lexer
  | .peek, l => (.front l.peek.1, l.peek.2)
  | .take, l => (.front l.take.1, l.take.2)
  | .next, l => (.token l.next.1, l.next.2)
  | .expect, l => check Compile.expect l
  | .accept kind, l => check (Compile.accept kind) l
  | .position, l => (.place l.position, l)

/-- The calls one after the other, each with its reply. -/
def history : List Call → Lexer → List (Call × Reply)
  | [], _ => []
  | c :: cs, l => (c, (c.ask l).1) :: history cs (c.ask l).2

/-- The lexer after some calls. -/
def after (cs : List Call) (l : Lexer) : Lexer := cs.foldl (fun l c => (c.ask l).2) l

/-- The calls that take a token if there is one. -/
def Consumes : Call → Prop
  | .peek | .position => False
  | .take | .next | .expect | .accept _ => True

instance : DecidablePred Consumes
  | .peek | .position => isFalse id
  | .take | .next | .expect | .accept _ => isTrue trivial

end Call

/-- The tokens that a call took, at most one, by its reply. -/
inductive Took : Call × Reply → List Token → Prop
  | peek (front : Option Token) : Took (.peek, .front front) []
  | position (p : Position) : Took (.position, .place p) []
  | take {t : Token} (hk : t.kind ≠ .endOfFile) : Took (.take, .front (some t)) [t]
  | takeEnd : Took (.take, .front none) []
  | next {t : Token} (hk : t.kind ≠ .endOfFile) : Took (.next, .token t) [t]
  | nextEnd {t : Token} (hk : t.kind = .endOfFile) : Took (.next, .token t) []
  | expect {t : Token} (hk : t.kind ≠ .endOfFile) : Took (.expect, .checked (.ok t)) [t]
  | expectEnd (p : Position) : Took (.expect, .checked (.error (.unexpectedEnd p))) []
  | accept {t : Token} (hk : t.kind ≠ .endOfFile) : Took (.accept t.kind, .checked (.ok t)) [t]
  /-- A token of another kind is taken too. -/
  | refuse {t : Token} {kind : TokenKind} (hk : t.kind ≠ .endOfFile) (hkind : t.kind ≠ kind) :
      Took (.accept kind, .checked (.error (.unexpectedToken t.position (.kind kind) t.text))) [t]
  | acceptEnd (kind : TokenKind) (p : Position) :
      Took (.accept kind, .checked (.error (.unexpectedEnd p))) []

/-- Every call says that the end is reached, which is this token. -/
structure Ended (l : Lexer) (eof : Token) : Prop where
  peek : (Call.peek.ask l).1 = .front none
  take : (Call.take.ask l).1 = .front none
  expect : ∃ p, (Call.expect.ask l).1 = .checked (.error (.unexpectedEnd p))
  accept : ∀ kind, ∃ p, ((Call.accept kind).ask l).1 = .checked (.error (.unexpectedEnd p))
  next : (Call.next.ask l).1 = .token eof

/-! ### What one call does -/

section Step

variable {l : Lexer}

theorem take_of_token (hk : l.next.1.kind ≠ .endOfFile) :
    l.take = (some l.next.1, l.next.2) := if_neg hk

theorem take_of_end (hk : l.next.1.kind = .endOfFile) : l.take = (none, l.peek.2) := if_pos hk

theorem expect_of_token (hk : l.next.1.kind ≠ .endOfFile) (sink : Sink) :
    Compile.expect (.start l sink) = .ok l.next.1 ⟨l.next.2, sink, .zero, #[.token l.next.1]⟩ := by
  have htake : TokenSource.take (Run.start l sink).source = _ := take_of_token hk
  unfold Compile.expect
  rw [htake]
  rfl

theorem expect_of_end (hk : l.next.1.kind = .endOfFile) (sink : Sink) :
    Compile.expect (.start l sink) = .error (.unexpectedEnd l.position) (.start l.peek.2 sink) := by
  have htake : TokenSource.take (Run.start l sink).source = _ := take_of_end hk
  unfold Compile.expect
  rw [htake]
  rfl

/-- A call for a token takes the next one, also if it then refuses it. -/
theorem ask_of_token {c : Call} (hc : c.Consumes) (hk : l.next.1.kind ≠ .endOfFile) :
    Took (c, (c.ask l).1) [l.next.1] ∧ (c.ask l).2 = l.next.2 := by
  have hexpect := expect_of_token hk .unbounded
  cases c with
  | peek => cases hc
  | position => cases hc
  | take =>
      rw [Call.ask, take_of_token hk]
      exact ⟨.take hk, rfl⟩
  | next => exact ⟨.next hk, rfl⟩
  | expect =>
      rw [Call.ask, check, hexpect]
      exact ⟨.expect hk, rfl⟩
  | accept kind =>
      rw [Call.ask, check, Compile.accept, Progress.bind_of_ok hexpect]
      by_cases hkind : l.next.1.kind = kind
      · subst hkind
        rw [if_pos rfl]
        exact ⟨.accept hk, rfl⟩
      · rw [if_neg hkind]
        exact ⟨.refuse hk hkind, rfl⟩

/-- Where there is no token, a call for one takes none. -/
theorem ask_of_end {c : Call} (hc : c.Consumes) (hk : l.next.1.kind = .endOfFile) :
    Took (c, (c.ask l).1) [] ∧ ((c.ask l).2 = l.peek.2 ∨ (c.ask l).2 = l.next.2) := by
  have hexpect := expect_of_end hk .unbounded
  cases c with
  | peek => cases hc
  | position => cases hc
  | take =>
      rw [Call.ask, take_of_end hk]
      exact ⟨.takeEnd, .inl rfl⟩
  | next => exact ⟨.nextEnd hk, .inr rfl⟩
  | expect =>
      rw [Call.ask, check, hexpect]
      exact ⟨.expectEnd _, .inl rfl⟩
  | accept kind =>
      rw [Call.ask, check, Compile.accept, Progress.bind_of_error hexpect]
      exact ⟨.acceptEnd _ _, .inl rfl⟩

/-- A call that only looks takes nothing. -/
theorem ask_of_looks {c : Call} (hc : ¬ c.Consumes) :
    Took (c, (c.ask l).1) [] ∧ ((c.ask l).2 = l ∨ (c.ask l).2 = l.peek.2) := by
  cases c with
  | peek => exact ⟨.peek _, .inr rfl⟩
  | position => exact ⟨.position _, .inl rfl⟩
  | take => exact absurd trivial hc
  | next => exact absurd trivial hc
  | expect => exact absurd trivial hc
  | accept kind => exact absurd trivial hc

end Step

/-! ### What calls do in any order

`Stands.ask` is the step, and `Stands.after` is the run, by induction on the list of calls. -/

/-- Where a lexer stands in its tokens. -/
structure Stands (l : Lexer) (left : List Token) (eof : Token) : Prop where
  sound : l.Sound
  yields : l.Yields left eof

/-- Where the lexer at the start of a source stands. -/
theorem stands_ofSource (source : String) :
    ∃ left eof, (ofSource source).Stands left eof ∧ tokenize source = left ++ [eof] := by
  obtain ⟨left, eof, hyields, htokens⟩ := yields_tokens (ofSource source)
  exact ⟨left, eof, ⟨sound_of_lookahead rfl, hyields⟩, htokens⟩

namespace Stands

variable {l : Lexer} {left : List Token} {eof : Token}

theorem peek (h : l.Stands left eof) : l.peek.2.Stands left eof :=
  ⟨h.sound.peek, h.yields.congr (next_peek l)⟩

/-- A call that only looks leaves a lexer where it stands. -/
theorem ask_of_looks (h : l.Stands left eof) {c : Call} (hc : ¬ c.Consumes) :
    Took (c, (c.ask l).1) [] ∧ (c.ask l).2.Stands left eof := by
  obtain ⟨htook, heq | heq⟩ := Lexer.ask_of_looks hc
  · rw [heq]
    exact ⟨htook, h⟩
  · rw [heq]
    exact ⟨htook, h.peek⟩

/-- A call for a token takes the next one, if there is one. -/
theorem ask_of_consumes (h : l.Stands left eof) {c : Call} (hc : c.Consumes) :
    Took (c, (c.ask l).1) (left.take 1) ∧ (c.ask l).2.Stands (left.drop 1) eof := by
  obtain ⟨hsound, hyields⟩ := h
  cases hyields with
  | token hk hrest =>
      obtain ⟨htook, heq⟩ := ask_of_token hc hk
      rw [heq]
      exact ⟨htook, sound_next l, hrest⟩
  | finish hk =>
      -- the end is held, or it was handed out and is found again
      have hstands : l.Stands [] l.next.1 := ⟨hsound, .finish hk⟩
      obtain ⟨htook, heq | heq⟩ := ask_of_end hc hk
      · rw [heq]
        exact ⟨htook, hstands.peek⟩
      · rw [heq]
        exact ⟨htook, sound_next l, hstands.yields.congr (hsound.next_next hk)⟩

/-- The place of a lexer does not go back with one call. -/
theorem position_le_ask (h : l.Stands left eof) (c : Call) : l.position ≤ (c.ask l).2.position := by
  have hpeek : l.position ≤ l.peek.2.position := position_le_next l
  have hnext : l.position ≤ l.next.2.position := by
    have hcursor : l.next.2.position = l.next.2.cursor := by
      unfold position
      rw [lookahead_next]
    rw [hcursor]
    exact Position.le_trans (position_le_next l) h.sound.next_le_cursor
  have hafter : (c.ask l).2 = l ∨ (c.ask l).2 = l.peek.2 ∨ (c.ask l).2 = l.next.2 := by
    by_cases hc : c.Consumes
    · by_cases hk : l.next.1.kind = .endOfFile
      · exact .inr (ask_of_end hc hk).2
      · exact .inr (.inr (ask_of_token hc hk).2)
    · exact (Lexer.ask_of_looks hc).2.imp id .inl
  rcases hafter with heq | heq | heq
  · rw [heq]
    exact Position.le_rfl
  · rw [heq]
    exact hpeek
  · rw [heq]
    exact hnext

/-- One call takes some of the tokens that are left, in their order. -/
theorem ask (h : l.Stands left eof) (c : Call) :
    ∃ taken left', left = taken ++ left' ∧ Took (c, (c.ask l).1) taken ∧
      (c.ask l).2.Stands left' eof := by
  by_cases hc : c.Consumes
  · obtain ⟨htook, hstands⟩ := h.ask_of_consumes hc
    exact ⟨_, _, (List.take_append_drop 1 left).symm, htook, hstands⟩
  · obtain ⟨htook, hstands⟩ := h.ask_of_looks hc
    exact ⟨[], left, rfl, htook, hstands⟩

/-- So do any calls, and the place does not go back. -/
theorem after (h : l.Stands left eof) (cs : List Call) :
    ∃ taken left', left = taken ++ left' ∧ Joined Took (Call.history cs l) taken ∧
      (Call.after cs l).Stands left' eof ∧ l.position ≤ (Call.after cs l).position := by
  induction cs generalizing l left with
  | nil => exact ⟨[], left, rfl, rfl, h, Position.le_rfl⟩
  | cons c cs ih =>
      obtain ⟨taken, left₁, rfl, htook, hstands⟩ := h.ask c
      obtain ⟨takens, left₂, rfl, htooks, hafter, hle⟩ := ih hstands
      exact ⟨taken ++ takens, left₂, by rw [List.append_assoc], ⟨taken, takens, htook, htooks, rfl⟩,
        hafter, Position.le_trans (h.position_le_ask c) hle⟩

/-- Calls that only look leave all tokens. -/
theorem after_looks (h : l.Stands left eof) {cs : List Call} (hcs : ∀ c ∈ cs, ¬ c.Consumes) :
    (Call.after cs l).Stands left eof := by
  induction cs generalizing l with
  | nil => exact h
  | cons c cs ih =>
      obtain ⟨hc, hcs⟩ := List.forall_mem_cons.mp hcs
      exact ih (h.ask_of_looks hc).2 hcs

theorem ended (h : l.Stands [] eof) : l.Ended eof := by
  constructor
  · exact congrArg Reply.front h.yields.peek_fst
  · have htook := (h.ask_of_consumes (c := .take) trivial).1
    generalize (Call.take.ask l).1 = reply at htook ⊢
    cases htook with
    | takeEnd => rfl
  · have htook := (h.ask_of_consumes (c := .expect) trivial).1
    generalize (Call.expect.ask l).1 = reply at htook ⊢
    cases htook with
    | expectEnd p => exact ⟨p, rfl⟩
  · intro kind
    have htook := (h.ask_of_consumes (c := .accept kind) trivial).1
    generalize ((Call.accept kind).ask l).1 = reply at htook ⊢
    cases htook with
    | acceptEnd _ p => exact ⟨p, rfl⟩
  · obtain ⟨-, hyields⟩ := h
    cases hyields with
    | finish => rfl

end Stands

/-- **Looking ahead never disturbs the tokens.**  A lexer is asked in any order for its next token,
which is taken or not, and for its place.  The tokens that were taken, also those that were refused,
are the first of the tokens of the source, in order.  Looking shows the token that the next call for
one takes, however often the lexer is only looked at; at the end there is none, and it stays so:
then every call says so, and the end is the same token whenever it is handed out.  The place of the
lexer never goes back. -/
theorem calls_take_tokens_in_order (source : String) (calls : List Call) :
    let l := Call.after calls (.ofSource source)
    ∃ taken left eof, tokenize source = taken ++ left ++ [eof] ∧ eof.kind = .endOfFile ∧
      Joined Took (Call.history calls (.ofSource source)) taken ∧
      (∀ looks : List Call, (∀ c ∈ looks, ¬ c.Consumes) →
        (Call.peek.ask (Call.after looks l)).1 = .front left.head? ∧
        ∀ c : Call, c.Consumes → Took (c, (c.ask (Call.after looks l)).1) left.head?.toList) ∧
      (left = [] → ∀ more : List Call, (Call.after more l).Ended eof) ∧
      ∀ more : List Call, l.position ≤ (Call.after more l).position := by
  intro l
  obtain ⟨all, eof, hstart, htokens⟩ := stands_ofSource source
  obtain ⟨taken, left, rfl, htook, hstands, -⟩ := hstart.after calls
  refine ⟨taken, left, eof, htokens, hstands.yields.eof_kind, htook, ?_, ?_, ?_⟩
  · intro looks hlooks
    have hlooked := hstands.after_looks hlooks
    refine ⟨congrArg Reply.front hlooked.yields.peek_fst, fun c hc => ?_⟩
    have htook := (hlooked.ask_of_consumes hc).1
    cases left with
    | nil => exact htook
    | cons t left => exact htook
  · rintro rfl more
    obtain ⟨taken', left', hnil, -, hmore, -⟩ := hstands.after more
    obtain ⟨-, rfl⟩ := List.append_eq_nil_iff.mp hnil.symm
    exact hmore.ended
  · intro more
    obtain ⟨-, -, -, -, -, hle⟩ := hstands.after more
    exact hle

/-- A brace is asked for where a name stands, and the name is taken all the same: the number is
next, however often that is looked at.  After the number comes the end, which is handed out again
and again. -/
theorem calls_take_tokens_in_order_refused :
    let refused := Call.after [.peek, .accept .openBrace] (.ofSource "Panel 4")
    (∀ c ∈ [Call.peek, .position, .peek], ¬ c.Consumes) ∧
      Took (.expect, (Call.expect.ask (Call.after [.peek, .position, .peek] refused)).1)
        [⟨.integer, "4", ⟨1, 7⟩⟩] ∧
      (Call.after [.next, .peek, .next, .next] refused).Ended ⟨.endOfFile, "", ⟨1, 8⟩⟩ := by
  intro refused
  have hlooks : ∀ c ∈ [Call.peek, .position, .peek], ¬ c.Consumes := by decide
  refine ⟨hlooks, ?_, ?_⟩
  · obtain ⟨taken, left, eof, -, -, -, hlook, -, -⟩ :=
      calls_take_tokens_in_order "Panel 4" [.peek, .accept .openBrace]
    obtain ⟨hpeek, htake⟩ := hlook _ hlooks
    have hnumber : (Call.peek.ask (Call.after [.peek, .position, .peek] refused)).1 =
        .front (some ⟨.integer, "4", ⟨1, 7⟩⟩) := by decide +kernel
    have hleft := Reply.front.inj (hpeek.symm.trans hnumber)
    have htook := htake .expect trivial
    rw [hleft] at htook
    exact htook
  · obtain ⟨taken, left, eof, htokens, -, -, hlook, hend, -⟩ :=
      calls_take_tokens_in_order "Panel 4" [.peek, .accept .openBrace, .next]
    have hpeek := (hlook [] (by decide)).1
    have hnone : (Call.peek.ask (Call.after [.next] refused)).1 = .front none := by decide +kernel
    have hleft := Reply.front.inj (hpeek.symm.trans hnone)
    have hended := hend (List.head?_eq_none_iff.mp hleft) [.peek, .next, .next]
    have hlast : (tokenize "Panel 4").getLast? = some ⟨.endOfFile, "", ⟨1, 8⟩⟩ := by decide +kernel
    rw [htokens, List.getLast?_concat] at hlast
    rw [← Option.some.inj hlast]
    exact hended

end Lexer

end WidgetLayout
