/-
Every token stands at one place of its source, and what it is is decided there.

The position of a token says which part of the source stands before it: two parts that a source
begins with and that end at the same position are the same (`Position.behind_inj`).  At that place
no gap begins, and the token is what the scanner takes from the text that follows, whatever came
before (`mem_tokenize`).  `Taken` says once what that can be, and of every possibility how the text
has to begin.
-/
import WidgetLayout.Proofs.Lookahead
import WidgetLayout.Proofs.Printing

namespace WidgetLayout

open WidgetLayout.Text (isDigit)

/-! ### Positions

Every character moves a position on, so different beginnings of a source end at different
positions. -/

namespace Position

/-- Only where nothing follows does a text end where it begins. -/
theorem eq_nil_of_after_eq {p : Position} {cs : List Char} (h : p.after cs = p) : cs = [] := by
  cases cs with
  | nil => rfl
  | cons c cs =>
      have hle : p.next c ≤ p := by
        have hafter := le_after (p.next c) cs
        rwa [show (p.next c).after cs = p from h] at hafter
      rw [le_iff] at hle
      by_cases hc : c = '\n'
      · simp only [next, if_pos hc] at hle
        omega
      · simp only [next, if_neg hc] at hle
        omega

/-- A position tells how much of a source stands before it. -/
theorem behind_inj {before before' rest rest' : List Char} (h : before ++ rest = before' ++ rest')
    (hposition : behind before = behind before') : before = before' := by
  rcases List.append_eq_append_iff.mp h with ⟨more, rfl, -⟩ | ⟨more, rfl, -⟩
  · rw [← after_behind] at hposition
    rw [eq_nil_of_after_eq hposition.symm, List.append_nil]
  · rw [← after_behind] at hposition
    rw [eq_nil_of_after_eq hposition, List.append_nil]

end Position

/-! ### What the scanner takes -/

/-- A lexeme that the scanner takes from a text, and the text after it, for every way in which a
text can begin. -/
inductive Taken : List Char → Lexeme × List Char → Prop
  | comment {body : List Char} (hopen : ¬ ['*', '/'] <:+: body) :
      Taken ('/' :: '*' :: body) (⟨.invalid, ['/', '*'], '/' :: '*' :: body⟩, [])
  | punctuation {c : Char} {after : List Char} {kind : TokenKind}
      (hc : punctuation? c = some kind) :
      Taken (c :: after) (⟨kind, [c], [c]⟩, after)
  | string {cs : List Char} : Taken ('"' :: cs) (splitString cs).lexeme
  | number {c : Char} {cs : List Char} (hc : isDigit c ∨ c = '-' ∧ beginsWithDigit cs) :
      Taken (c :: cs) (splitNumber (c :: cs))
  | word {c : Char} {cs : List Char} (hc : isWordStart c) :
      Taken (c :: cs) (⟨.identifier, c :: cs.takeWhile isWordPart, c :: cs.takeWhile isWordPart⟩,
        cs.dropWhile isWordPart)
  /-- A character that begins nothing else. -/
  | character {c : Char} {after : List Char} (hcomment : ¬ beginsComment (c :: after))
      (hpunctuation : punctuation? c = none) (hquote : c ≠ '"') (hdigit : ¬ isDigit c)
      (hsign : c = '-' → ¬ beginsWithDigit after) (hword : ¬ isWordStart c) :
      Taken (c :: after) (⟨.invalid, [c], [c]⟩, after)

theorem taken_splitLexeme {c : Char} {cs : List Char} (h : gapPiece? (c :: cs) = none) :
    Taken (c :: cs) (splitLexeme c cs) := by
  unfold splitLexeme
  by_cases hbegins : beginsComment (c :: cs)
  · rw [if_pos hbegins]
    obtain ⟨body, hbody⟩ := beginsComment_iff.mp hbegins
    obtain ⟨rfl, rfl⟩ := List.cons.inj hbody
    have hopen : closeComment body = none := Option.map_eq_none_iff.mp h
    exact .comment (closeComment_eq_none_iff.mp hopen)
  · rw [if_neg hbegins]
    cases hpunctuation : punctuation? c with
    | some kind => exact .punctuation hpunctuation
    | none =>
        dsimp only
        by_cases hquote : c = '"'
        · rw [if_pos hquote, hquote]
          exact .string
        · rw [if_neg hquote]
          by_cases hnumber : isDigit c ∨ c = '-' ∧ beginsWithDigit cs
          · rw [if_pos (by simpa using hnumber)]
            exact .number hnumber
          · rw [if_neg (by simpa using hnumber)]
            rw [not_or, not_and] at hnumber
            by_cases hword : isWordStart c
            · rw [if_pos hword]
              exact .word hword
            · rw [if_neg hword]
              exact .character hbegins hpunctuation hquote hnumber.1 hnumber.2 hword

/-! ### Places of tokens -/

/-- Where a token stands: at the end of its source, or before the text whose first lexeme it is. -/
inductive StandsBefore : List Char → Token → Prop
  | finish {t : Token} (hkind : t.kind = .endOfFile) : StandsBefore [] t
  | lexeme {t : Token} {c : Char} {cs : List Char} (hgap : gapPiece? (c :: cs) = none)
      (hkind : t.kind = (splitLexeme c cs).1.kind)
      (htext : t.text.toList = (splitLexeme c cs).1.text) :
      StandsBefore (c :: cs) t

namespace Lexer

/-- The token that is scanned stands behind a gap, and scanning goes on behind its lexeme. -/
theorem scan_stands {l : Lexer} {before : List Char} (hcursor : l.cursor = .behind before) :
    ∃ gap text, l.rest = gap ++ text ∧ l.scan.1.position = .behind (before ++ gap) ∧
      StandsBefore text l.scan.1 ∧
        ∃ raw, text = raw ++ l.scan.2.rest ∧ l.scan.2.cursor = .behind (before ++ gap ++ raw) := by
  have hnone := gapPiece?_splitGap l.rest
  refine ⟨(splitGap l.rest).1, (splitGap l.rest).2, (splitGap_append l.rest).symm, ?_⟩
  cases hafter : (splitGap l.rest).2 with
  | nil =>
      have hscan : l.scan = (⟨.endOfFile, "", .behind (before ++ (splitGap l.rest).1)⟩,
          { l with rest := [], cursor := .behind (before ++ (splitGap l.rest).1) }) := by
        simp only [scan, hafter, tokenAt, hcursor, Position.after_behind]
      rw [hscan]
      exact ⟨rfl, .finish rfl, [], rfl, by simp⟩
  | cons c cs =>
      rw [hafter] at hnone
      rw [scan_of_lexeme hcursor hafter]
      refine ⟨rfl, .lexeme hnone rfl String.toList_ofList, ?_⟩
      exact ⟨_, (splitLexeme_append c cs).symm, rfl⟩

/-- The tokens of a lexer stand at places of the text that it has not scanned. -/
theorem mem_tokens (l : Lexer) : ∀ before, l.lookahead = none → l.cursor = .behind before →
    ∀ t ∈ l.tokens.1, ∃ gap text, l.rest = gap ++ text ∧ t.position = .behind (before ++ gap) ∧
      StandsBefore text t := by
  -- the induction is on the tokens handed out; what stands before the rest grows by a gap and a
  -- lexeme
  fun_induction tokens l with
  | case1 l t l' hnext hk =>
      intro before hlookahead hcursor t' ht'
      obtain rfl := List.mem_singleton.mp ht'
      obtain ⟨gap, text, hrest, hposition, hstands, -⟩ := scan_stands hcursor
      rw [← next_of_lookahead hlookahead, hnext] at hposition hstands
      exact ⟨gap, text, hrest, hposition, hstands⟩
  | case2 l t l' hnext hk ts l'' hrest ih =>
      intro before hlookahead hcursor t' ht'
      obtain ⟨gap, text, htext, hposition, hstands, raw, hraw, hcursor'⟩ := scan_stands hcursor
      have hheld := lookahead_next l
      rw [← next_of_lookahead hlookahead, hnext] at hposition hstands hraw hcursor'
      rw [hnext] at hheld
      rcases List.mem_cons.mp ht' with rfl | hmem
      · exact ⟨gap, text, htext, hposition, hstands⟩
      · rw [hrest] at ih
        obtain ⟨gap', text', htext', hposition', hstands'⟩ := ih _ hheld hcursor' t' hmem
        refine ⟨gap ++ raw ++ gap', text', ?_, ?_, hstands'⟩
        · rw [htext, hraw, htext']
          simp
        · rw [hposition']
          simp

end Lexer

/-- Every token of a source stands at a place of it. -/
theorem mem_tokenize {source : String} {t : Token} (h : t ∈ tokenize source) :
    ∃ before text, source.toList = before ++ text ∧ t.position = .behind before ∧
      StandsBefore text t :=
  Lexer.mem_tokens (.ofSource source) [] rfl rfl t h

/-- What a token is is decided by the text at its place. -/
theorem standsBefore_of_mem {source : String} {t : Token} {before text : List Char}
    (h : t ∈ tokenize source) (hsource : source.toList = before ++ text)
    (hposition : t.position = .behind before) : StandsBefore text t := by
  obtain ⟨before', text', hsource', hposition', hstands⟩ := mem_tokenize h
  have hsplit := hsource.symm.trans hsource'
  obtain rfl := Position.behind_inj hsplit (hposition.symm.trans hposition')
  rwa [List.append_cancel_left hsplit]

end WidgetLayout
