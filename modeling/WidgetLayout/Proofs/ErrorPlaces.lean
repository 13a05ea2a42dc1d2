/-
Errors point at what is wrong.

The tokens that a compilation sees are the tokens of its source, so by `Proofs/ErrorCauses.lean` an
error about a token is about one of them.  What is left is where the end of the input is reported.
A lexer knows two places then.  If the end was looked at before, it is held and stands at the end of
the source; otherwise the lexer still stands where it stopped scanning, right behind the last
lexeme.  `Resumes` is the invariant that says so of every lexer that holds no token.
-/
import WidgetLayout.Proofs.ErrorCauses
import WidgetLayout.Proofs.TokenPlaces

namespace WidgetLayout

open WidgetLayout.TokenSource

/-- A text up to the end of the lexeme of the last token, and the text after it.  Where there is no
token, the first of them is empty. -/
inductive UpToLast : List Token → List Char → List Char → Prop
  | none {after : List Char} : UpToLast [] [] after
  | last {ts : List Token} {t : Token} {before lexeme after : List Char}
      (hposition : t.position = .behind before)
      (hspells : Spells t.kind t.text.toList lexeme after) :
        UpToLast (ts ++ [t]) (before ++ lexeme) after

/-- A place where the input can be reported to end: the end of the source, or the end of the last
lexeme, which is the start of the source if there is no token. -/
def EndPlace (source : String) (p : Position) : Prop :=
  ∃ before gap, source.toList = before ++ gap ∧ Gap gap [] ∧
    UpToLast (tokenize source).dropLast before gap ∧
    (p = .behind source.toList ∨ p = .behind before)

/-- An error points at a token of the source and has its text, or at a place where the input can
end; or it points at no place. -/
def Error.PointsInto (source : String) : Error → Prop
  | .unexpectedToken p _ text | .unknownSymbol p _ text | .propertyAfterChild p text =>
    ∃ t ∈ tokenize source, t.position = p ∧ t.text = text
  | .invalidValue p fault => ∃ t ∈ tokenize source, t.position = p ∧ fault.Of t
  | .unexpectedEnd p => EndPlace source p
  | .output _ => True
  | .limitExceeded limit _ => limit = .nestingDepth
  | .unreadableFile .. | .invalidFormat .. => False

namespace Lexer

/-! ### Where a lexer stands

Behind some tokens a lexer stands right behind the last lexeme, not behind the gap after it; that
is where the input is reported to end. -/

/-- What scanning comes to behind `before`: only a gap was left and the end is found, or the lexeme
of a token was taken behind a gap. -/
inductive Scanned (before : List Char) (l : Lexer) : Prop
  | finish (hgap : Gap l.rest []) (hend : l.scan.1 = ⟨.endOfFile, "", .behind (before ++ l.rest)⟩)
  | token {gap lexeme : List Char} (hrest : l.rest = gap ++ lexeme ++ l.scan.2.rest)
      (hposition : l.scan.1.position = .behind (before ++ gap))
      (hspells : Spells l.scan.1.kind l.scan.1.text.toList lexeme l.scan.2.rest)
      (hcursor : l.scan.2.cursor = .behind (before ++ gap ++ lexeme))

theorem scan_cases {l : Lexer} {before : List Char} (hcursor : l.cursor = .behind before) :
    Scanned before l := by
  have hgap := gap_splitGap l.rest
  have happend := splitGap_append l.rest
  have hnone := gapPiece?_splitGap l.rest
  cases hafter : (splitGap l.rest).2 with
  | nil =>
      have hscan := scan_of_end hcursor hafter
      rw [hafter, List.append_nil] at happend
      rw [hafter, happend] at hgap
      rw [happend] at hscan
      exact .finish hgap hscan
  | cons c cs =>
      have hscan := scan_of_lexeme hcursor hafter
      have hspells := spells_splitLexeme (hafter ▸ hnone)
      rw [hafter, ← splitLexeme_append c cs, ← List.append_assoc] at happend
      refine .token ?_ (by rw [hscan]) ?_ (by rw [hscan])
      · rw [hscan]
        exact happend.symm
      · rw [hscan, String.toList_ofList]
        exact hspells

/-- Some tokens of the source were taken, and the lexer stands right behind their lexemes. -/
structure Resumes (source : String) (taken : List Token) (l : Lexer) : Prop where
  lookahead : l.lookahead = none
  tokens : taken ++ takeAll l = (tokenize source).dropLast
  place : ∃ before, source.toList = before ++ l.rest ∧ l.cursor = .behind before ∧
    UpToLast taken before l.rest

variable {source : String} {taken : List Token} {l : Lexer}

theorem resumes_ofSource (source : String) : (ofSource source).Resumes source [] :=
  ⟨rfl, (dropLast_tokenize source).symm, [], rfl, rfl, .none⟩

theorem peek_peek (l : Lexer) : l.peek.2.peek = l.peek := by
  rw [peek, next_peek]
  rfl

namespace Resumes

/-- Taking a token brings the lexer behind its lexeme. -/
theorem next (h : l.Resumes source taken) (hk : l.next.1.kind ≠ .endOfFile) :
    l.next.2.Resumes source (taken ++ [l.next.1]) := by
  obtain ⟨hlookahead, htokens, before, hsource, hcursor, -⟩ := h
  have htake : TokenSource.take l = (some l.next.1, l.next.2) := take_of_token hk
  refine ⟨lookahead_next l, ?_, ?_⟩
  · rw [← htokens, takeAll_of_some htake, List.append_assoc, List.singleton_append]
  · rw [next_of_lookahead hlookahead] at hk ⊢
    cases scan_cases hcursor with
    | finish _ hend => exact absurd (congrArg Token.kind hend) hk
    | token hrest hposition hspells hcursor' =>
        refine ⟨_, ?_, hcursor', .last hposition hspells⟩
        rw [hsource, hrest]
        simp

/-- At the end of the tokens only a gap is left. -/
theorem finish (h : l.Resumes source taken) (hk : l.next.1.kind = .endOfFile) :
    EndPlace source l.cursor ∧ EndPlace source l.next.1.position := by
  obtain ⟨hlookahead, htokens, before, hsource, hcursor, hlast⟩ := h
  have htake : TokenSource.take l = (none, l.peek.2) := take_of_end hk
  rw [takeAll_of_none htake, List.append_nil] at htokens
  rw [htokens] at hlast
  rw [next_of_lookahead hlookahead] at hk ⊢
  cases scan_cases hcursor with
  | finish hgap hend =>
      rw [hend, ← hsource]
      exact ⟨⟨before, l.rest, hsource, hgap, hlast, .inr hcursor⟩, before, l.rest, hsource, hgap,
        hlast, .inl rfl⟩
  | token _ _ hspells _ => exact absurd hk hspells.kind_ne

/-- The token that comes next is a token of the source. -/
theorem mem_tokenize (h : l.Resumes source taken) (hk : l.next.1.kind ≠ .endOfFile) :
    l.next.1 ∈ tokenize source := by
  refine List.dropLast_subset _ ?_
  rw [← (h.next hk).tokens]
  simp

end Resumes

/-! ### Every lexer of a run

A compilation looks ahead before it takes, so its lexer may have looked at one token more than
were taken. -/

/-- A lexer that stands behind the tokens that were taken, or that has looked at one more. -/
inductive Reached (source : String) : Lexer → Prop
  | resumes {taken : List Token} {l : Lexer} (h : l.Resumes source taken) : Reached source l
  | looked {taken : List Token} {l : Lexer} (h : l.Resumes source taken) : Reached source l.peek.2

theorem Resumes.reached_take (h : l.Resumes source taken) :
    (∀ t ∈ l.take.1, t ∈ tokenize source) ∧ Reached source l.take.2 := by
  by_cases hk : l.next.1.kind = .endOfFile
  · rw [take_of_end hk]
    exact ⟨nofun, .looked h⟩
  · rw [take_of_token hk]
    refine ⟨?_, .resumes (h.next hk)⟩
    rintro _ ⟨⟩
    exact h.mem_tokenize hk

theorem Resumes.reached_peek (h : l.Resumes source taken) :
    (∀ t ∈ l.peek.1, t ∈ tokenize source) ∧ Reached source l.peek.2 := by
  have hpeek : l.peek.1 = l.take.1 := LawfulTokenSource.peek_fst l
  exact ⟨hpeek ▸ h.reached_take.1, .looked h⟩

/-- What is known of the lexers of a source. -/
def outlook (source : String) : Outlook Lexer where
  Sources := Reached source
  Tokens t := t ∈ tokenize source
  Ends := EndPlace source
  peek h := by
    cases h with
    | resumes h => exact h.reached_peek
    | @looked _ l h =>
        show (∀ t ∈ l.peek.2.peek.1, t ∈ tokenize source) ∧ Reached source l.peek.2.peek.2
        rw [peek_peek]
        exact h.reached_peek
  take h := by
    cases h with
    | resumes h => exact h.reached_take
    | @looked _ l h =>
        show (∀ t ∈ l.peek.2.take.1, t ∈ tokenize source) ∧ Reached source l.peek.2.take.2
        rw [take_peek]
        exact h.reached_take
  finish {s} h hnone := by
    have hend : s.next.1.kind = .endOfFile := by
      refine Decidable.byContradiction fun hk => ?_
      have htake : s.take.1 = Option.none := hnone
      rw [take_of_token hk] at htake
      cases htake
    -- a lexer that holds the end says where it stands; one that does not has stopped behind the
    -- last lexeme
    cases h with
    | resumes h =>
        have hposition : TokenSource.position s = s.cursor := by
          show s.position = s.cursor
          rw [position, h.lookahead]
        rw [hposition]
        exact (h.finish hend).1
    | looked h =>
        rw [next_peek] at hend
        exact (h.finish hend).2

end Lexer

/-- **Errors point at what is wrong.**  If a source cannot be compiled, an error about a token has
the position of a token of the source, and the text that it quotes is that token's; an error about a
value also says what is the matter with its token.  An end of the input is reported at the end of
the source or at the end of its last lexeme, or at the start if there is no token.  All other errors
have no place. -/
theorem compileInto_error_pointsInto {sink : Sink} {context : Context} {source : String} {e : Error}
    (h : (compileInto sink context source).result = .error e) : e.PointsInto source := by
  have hresults := Document.accounts_compile (O := Lexer.outlook source) context
    (.start (.ofSource source) sink) (.resumes (Lexer.resumes_ofSource source))
  unfold compileInto Compile.outcome at h
  generalize Document.compile context (.start (Lexer.ofSource source) sink) = r at h hresults
  cases hresults with
  | ok => cases h
  | error he =>
      cases h
      cases he with
      | token ht hat =>
          cases hat with
          | unexpectedToken => exact ⟨_, ht, rfl, rfl⟩
          | unknownSymbol => exact ⟨_, ht, rfl, rfl⟩
          | propertyAfterChild => exact ⟨_, ht, rfl, rfl⟩
          | invalidValue hfault => exact ⟨_, ht, rfl, hfault⟩
      | finish hp => exact hp
      | output => trivial
      | depth => rfl

/-- Two sources that end with a comment.  The first one lacks an item of its widget, for which the
compiler does not look ahead, and so the end is reported behind the brace; behind a colon it does,
and the end is found. -/
theorem compileInto_error_pointsInto_comments :
    let reported := fun source p => (compileInto .unbounded Options.default.context source).result =
      .error (.unexpectedEnd p) ∧ (Error.unexpectedEnd p).PointsInto source
    reported "Panel \x7b // empty" ⟨1, 8⟩ ∧ reported "Panel \x7b margin: // none" ⟨1, 24⟩ := by
  have hbrace : (compileInto .unbounded Options.default.context "Panel \x7b // empty").result =
      .error (.unexpectedEnd ⟨1, 8⟩) := by decide +kernel
  have hcolon :
      (compileInto .unbounded Options.default.context "Panel \x7b margin: // none").result =
      .error (.unexpectedEnd ⟨1, 24⟩) := by decide +kernel
  exact ⟨⟨hbrace, compileInto_error_pointsInto hbrace⟩, hcolon, compileInto_error_pointsInto hcolon⟩

end WidgetLayout
