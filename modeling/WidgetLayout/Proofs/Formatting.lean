/-
The layout of a source text makes no difference to what it is compiled to.

Two sources may have other blanks, comments and line ends, as long as their tokens have the same
kinds and texts.  The tokens then stand in different places, and places go into every error; but
nothing else does, so the two are compiled in step and can end only with errors that point to
different places.
-/
import WidgetLayout.Proofs.Lockstep

namespace WidgetLayout

open WidgetLayout.TokenSource

/-- Tokens of the same kinds and texts begin with tokens of the same kind and text. -/
theorem rel_head?_of_faces {ts us : List Token} (h : ts.map Token.face = us.map Token.face) :
    Option.Rel (Token.Alike fun _ _ => True) ts.head? us.head? := by
  cases ts with
  | nil =>
      obtain rfl : us = [] := List.map_eq_nil_iff.mp h.symm
      exact .none
  | cons t ts =>
      cases us with
      | nil => cases h
      | cons u us => exact .some ⟨(List.cons.inj h).1, trivial⟩

/-- Runs may differ in where their tokens stand. -/
def Lockstep.faces (σ τ : Type) [TokenSource σ] [TokenSource τ] [LawfulTokenSource σ]
    [LawfulTokenSource τ] :
    Lockstep σ τ where
  Places _ _ := True
  Sources s t := (takeAll s).map Token.face = (takeAll t).map Token.face
  Counters := Eq
  position _ := trivial
  peek {s t} h := by
    rw [peek_eq_head?, peek_eq_head?, takeAll_peek, takeAll_peek]
    exact ⟨rel_head?_of_faces h, h⟩
  take {s t} h := by
    rw [take_fst, take_fst, takeAll_take, takeAll_take, List.map_tail, List.map_tail, h]
    exact ⟨rel_head?_of_faces h, rfl⟩

/-- **Formatting makes no difference.**  If two sources have tokens of the same kinds and texts, the
same bytes are written for both and the same things counted, and both end well or fail with the same
error but for the place that it points to. -/
theorem compileInto_of_faces (context : Context) (sink : Sink) {source source' : String}
    (h : (tokenize source).map Token.face = (tokenize source').map Token.face) :
    let o := compileInto sink context source
    let o' := compileInto sink context source'
    o.run.sink = o'.run.sink ∧ o.run.stats = o'.run.stats ∧
      (o.result = .ok () ∧ o'.result = .ok () ∨
        ∃ e p, o.result = .error e ∧ o'.result = .error (e.placed p)) := by
  have hfaces : (takeAll (Lexer.ofSource source)).map Token.face =
      (takeAll (Lexer.ofSource source')).map Token.face := by
    rw [← dropLast_tokenize, ← dropLast_tokenize, List.map_dropLast, List.map_dropLast, h]
  have hstart : (Lockstep.faces Lexer Lexer).Runs (.start (.ofSource source) sink)
      (.start (.ofSource source') sink) := ⟨hfaces, rfl, rfl⟩
  have hcounts : ∀ c, (Lockstep.faces Lexer Lexer).Counts c := by
    rintro c a _ rfl
    rfl
  obtain ⟨hruns, hresult⟩ := (Document.inStep_compile context hcounts).outcome hstart
  refine ⟨hruns.sink, hruns.stats, hresult.imp_right ?_⟩
  rintro ⟨e, e', he, he', herror⟩
  rw [Error.eq_placed herror.1] at he'
  exact ⟨e, _, he, he'⟩

/-- A margin without its semicolon, on one line and on three: the brace that stands in its place is
reported where it stands. -/
theorem compileInto_of_faces_margin :
    let source := "Panel \x7b margin: 4 \x7d"
    let source' := "Panel // outer\n\x7b margin /* all */ : 4\n\x7d"
    let o := compileInto .unbounded ⟨.shipped, .empty, 64⟩ source
    let o' := compileInto .unbounded ⟨.shipped, .empty, 64⟩ source'
    (tokenize source).map Token.face = (tokenize source').map Token.face ∧
      o.run.sink = o'.run.sink ∧ o.run.stats = o'.run.stats ∧
        o.result = .error (.unexpectedToken ⟨1, 19⟩ .comma "\x7d") ∧
          o'.result = .error (.unexpectedToken ⟨3, 1⟩ .comma "\x7d") := by
  intro source source' o o'
  have hfaces : (tokenize source).map Token.face = (tokenize source').map Token.face := by
    decide +kernel
  obtain ⟨hsink, hstats, -⟩ := compileInto_of_faces ⟨.shipped, .empty, 64⟩ .unbounded hfaces
  exact ⟨hfaces, hsink, hstats, by decide +kernel, by decide +kernel⟩

end WidgetLayout
