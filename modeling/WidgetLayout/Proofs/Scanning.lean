/-
The scanner loses no character of a source and tells where each token stands.

`Cuts` says how a source falls into gaps and lexemes, with a token for each lexeme and one for the
end.  What a gap is is said without the scanner: blanks and comments, of which a line comment goes
on to the end of its line and a block comment to the first mark that closes it.  Positions are
counted from all that stands before a lexeme, and so do not depend on how the scanner came there.
-/
import WidgetLayout.Token.Lexer

namespace WidgetLayout

open WidgetLayout.Text (isBlank)

/-! ### Positions

A position counts the lines and the columns of what stands before it. -/

namespace Position

/-- Where the text after `before` begins, if `before` begins a source: the lines of `before` are
counted, and the characters of its last line. -/
def behind (before : List Char) : Position :=
  ⟨1 + before.count '\n', 1 + (before.reverse.takeWhile (· ≠ '\n')).length⟩

theorem next_behind (before : List Char) (c : Char) :
    (behind before).next c = behind (before ++ [c]) := by
  by_cases hc : c = '\n'
  · simp [next, behind, hc, Nat.add_assoc]
  · simp [next, behind, hc, Nat.add_comm]

theorem after_behind (before cs : List Char) :
    (behind before).after cs = behind (before ++ cs) := by
  induction cs generalizing before with
  | nil => simp
  | cons c cs ih =>
      show ((behind before).next c).after cs = _
      rw [next_behind, ih, List.append_assoc, List.singleton_append]

end Position

/-! ### Gaps

Blanks and comments follow each other in any number.  A line comment leaves its line end to the
piece after it. -/

/-- A text that separates lexemes, and the text after it. -/
inductive Gap : List Char → List Char → Prop
  | nil {after : List Char} : Gap [] after
  | blank {c : Char} {gap after : List Char} (hc : isBlank c) (hgap : Gap gap after) :
      Gap (c :: gap) after
  /-- A line comment ends before a newline or with the source. -/
  | line {body gap after : List Char} (hbody : '\n' ∉ body)
      (hend : ∀ c, (gap ++ after).head? = some c → c = '\n') (hgap : Gap gap after) :
      Gap ('/' :: '/' :: (body ++ gap)) after
  /-- A block comment ends with the first mark that closes it. -/
  | block {body gap after : List Char} (hbody : ¬ ['*', '/'] <:+: body) (hgap : Gap gap after) :
      Gap ('/' :: '*' :: (body ++ '*' :: '/' :: gap)) after

/-- The mark that closes a comment stands at the front of a text or further on. -/
theorem closes_cons_iff {c : Char} {cs : List Char} :
    ['*', '/'] <:+: c :: cs ↔ (c = '*' ∧ cs.head? = some '/') ∨ ['*', '/'] <:+: cs := by
  rw [List.infix_cons_iff]
  refine or_congr_left ?_
  cases cs with
  | nil => simp [List.cons_prefix_cons]
  | cons d ds => simp [List.cons_prefix_cons, eq_comm]

theorem closeComment_cons {c : Char} {cs : List Char} (h : ¬ (c = '*' ∧ cs.head? = some '/')) :
    closeComment (c :: cs) = (closeComment cs).map fun (body, rest) => (c :: body, rest) := by
  rw [closeComment]
  rintro rest rfl rfl
  exact h ⟨rfl, rfl⟩

/-- A comment is not closed exactly if no mark that closes it follows. -/
theorem closeComment_eq_none_iff {cs : List Char} : closeComment cs = none ↔
    ¬ ['*', '/'] <:+: cs := by
  induction cs with
  | nil => simp [closeComment]
  | cons c cs ih =>
      rw [closes_cons_iff, not_or]
      by_cases hc : c = '*' ∧ cs.head? = some '/'
      · obtain ⟨rfl, hhead⟩ := hc
        obtain ⟨tail, rfl⟩ := List.head?_eq_some_iff.mp hhead
        simp [closeComment]
      · rw [closeComment_cons hc, Option.map_eq_none_iff, ih]
        exact (and_iff_right hc).symm

/-- A closed comment ends with the first mark that closes it. -/
theorem closeComment_eq_some {cs closed rest : List Char}
    (h : closeComment cs = some (closed, rest)) :
    ∃ body, closed = body ++ ['*', '/'] ∧ ¬ ['*', '/'] <:+: body := by
  induction cs generalizing closed with
  | nil => cases h
  | cons c cs ih =>
      by_cases hc : c = '*' ∧ cs.head? = some '/'
      · obtain ⟨rfl, hhead⟩ := hc
        obtain ⟨tail, rfl⟩ := List.head?_eq_some_iff.mp hhead
        obtain ⟨rfl, -⟩ := Prod.mk.inj (Option.some.inj h)
        exact ⟨[], rfl, by simp⟩
      · rw [closeComment_cons hc] at h
        obtain ⟨⟨closed', rest'⟩, hclosed, heq⟩ := Option.map_eq_some_iff.mp h
        obtain ⟨rfl, rfl⟩ := Prod.mk.inj heq
        obtain ⟨body, rfl, hbody⟩ := ih hclosed
        refine ⟨c :: body, rfl, ?_⟩
        rw [closes_cons_iff, not_or]
        refine ⟨fun hfront => hc ⟨hfront.1, ?_⟩, hbody⟩
        obtain ⟨tail, rfl⟩ := List.head?_eq_some_iff.mp hfront.2
        rw [← closeComment_append hclosed]
        rfl

/-- A piece that the scanner skips begins a gap. -/
theorem gap_of_gapPiece? {cs piece rest gap after : List Char}
    (h : gapPiece? cs = some (piece, rest)) (hrest : gap ++ after = rest) (hgap : Gap gap after) :
    Gap (piece ++ gap) after := by
  unfold gapPiece? at h
  split at h
  · rename_i tail
    obtain ⟨rfl, rfl⟩ := Prod.mk.inj (Option.some.inj h)
    refine .line ?_ ?_ hgap
    · intro hmem
      have hall := List.all_eq_true.mp (List.all_takeWhile (p := (· ≠ '\n')) (l := tail)) _ hmem
      simp at hall
    · intro c hc
      rw [hrest] at hc
      have hhead := List.head?_dropWhile_not (· ≠ '\n') tail
      rw [hc] at hhead
      simpa using hhead
  · rename_i tail
    obtain ⟨⟨closed, rest'⟩, hclosed, heq⟩ := Option.map_eq_some_iff.mp h
    obtain ⟨rfl, rfl⟩ := Prod.mk.inj heq
    obtain ⟨body, rfl, hbody⟩ := closeComment_eq_some hclosed
    have hblock := Gap.block hbody hgap
    simpa using hblock
  · rename_i c tail _ _
    by_cases hc : isBlank c
    · rw [if_pos hc] at h
      obtain ⟨rfl, rfl⟩ := Prod.mk.inj (Option.some.inj h)
      exact .blank hc hgap
    · rw [if_neg hc] at h
      cases h
  · cases h

theorem gap_splitGap (cs : List Char) : Gap (splitGap cs).1 (splitGap cs).2 := by
  fun_induction splitGap cs with
  | case1 cs h => exact .nil
  | case2 cs piece rest h gap rest' hgap ih =>
      have happend := splitGap_append rest
      rw [hgap] at ih happend
      exact gap_of_gapPiece? h happend ih

theorem gapPiece?_splitGap (cs : List Char) : gapPiece? (splitGap cs).2 = none := by
  fun_induction splitGap cs with
  | case1 cs h => exact h
  | case2 cs piece rest h gap rest' hgap ih =>
      rw [hgap] at ih
      exact ih

/-- Where the scanner skips nothing, no gap begins. -/
theorem Gap.eq_nil {gap after : List Char} (h : Gap gap after)
    (hnone : gapPiece? (gap ++ after) = none) : gap = [] := by
  cases h with
  | nil => rfl
  | @blank c gap _ hc hgap =>
      have hslash : c ≠ '/' := by
        rintro rfl
        exact absurd hc (by decide)
      unfold gapPiece? at hnone
      split at hnone
      · cases hnone
      · rename_i heq
        exact absurd (List.cons.inj heq).1 hslash
      · rename_i heq
        obtain ⟨rfl, rfl⟩ := List.cons.inj heq
        rw [if_pos hc] at hnone
        cases hnone
      · rename_i heq
        cases heq
  | line hbody hend hgap => cases hnone
  | @block body gap _ hbody hgap =>
      have hnone : (closeComment (body ++ '*' :: '/' :: gap ++ after)).map _ = none := hnone
      rw [Option.map_eq_none_iff, closeComment_eq_none_iff] at hnone
      exact absurd ⟨body, gap ++ after, by simp⟩ hnone

/-! ### Strings -/

/-- What stands between the quotes of a string, and what it stands for. -/
inductive Content : List Char → List Char → Prop
  | nil : Content [] []
  | plain {c : Char} {raw value : List Char} (hc : c ∉ ['"', '\\', '\n', '\r'])
      (h : Content raw value) :
      Content (c :: raw) (c :: value)
  | escape {c : Char} {raw value : List Char} (h : Content raw value) :
      Content ('\\' :: c :: raw) (unescape c ++ value)

/-- The characters that have another meaning behind a backslash, each with that meaning. -/
def escapes : List (Char × Char) :=
  [('n', '\n'), ('t', '\t'), ('r', '\r'), ('\\', '\\'), ('"', '"'), ('\'', '\'')]

/-- A backslash gives a character its other meaning, and is kept where there is none. -/
theorem unescape_eq_iff {c : Char} {value : List Char} :
    unescape c = value ↔
      (∃ d, (c, d) ∈ escapes ∧ value = [d]) ∨ (∀ d, (c, d) ∉ escapes) ∧ value = ['\\', c] := by
  unfold unescape
  split
  case h_7 hn ht hr hbackslash hquote hapostrophe =>
    have hnone : ∀ d, (c, d) ∉ escapes := by
      intro d hmem
      simp only [escapes, List.mem_cons, Prod.mk.injEq, List.not_mem_nil, or_false] at hmem
      grind
    simp [hnone, eq_comm]
  all_goals simp [escapes, eq_comm]

theorem content_splitString {cs : List Char} (h : (splitString cs).closed) :
    ∃ raw, (splitString cs).raw = raw ++ ['"'] ∧ Content raw (splitString cs).value := by
  induction cs using splitString.induct with
  | case1 => cases h
  | case2 rest => exact ⟨[], rfl, .nil⟩
  | case3 rest => cases h
  | case4 rest => cases h
  | case5 => cases h
  | case6 c rest ih =>
      rw [splitString] at h ⊢
      obtain ⟨raw, hraw, hcontent⟩ := ih h
      refine ⟨'\\' :: c :: raw, ?_, .escape hcontent⟩
      simp [StringBody.cons, hraw]
  | case7 c rest hquote hnewline hreturn hlast hescape ih =>
      rw [splitString] at h ⊢
      · obtain ⟨raw, hraw, hcontent⟩ := ih h
        refine ⟨c :: raw, ?_, .plain ?_ hcontent⟩
        · simp [StringBody.cons, hraw]
        · have hbackslash : c ≠ '\\' := by
            intro hc
            cases rest with
            | nil => exact hlast hc rfl
            | cons d ds => exact hescape d ds hc rfl
          simpa using ⟨hquote, hbackslash, hnewline, hreturn⟩
      all_goals assumption

/-! ### Lexemes -/

/-- A lexeme, the kind and the text of its token, and the text after it.  Only strings and the
opening mark of a comment that is never closed have a text other than the lexeme itself. -/
inductive Spells : TokenKind → List Char → List Char → List Char → Prop
  | plain {kind : TokenKind} {lexeme after : List Char} (hkind : kind ∉ [.string, .endOfFile])
      (hcomment : ¬ ['/', '*'] <+: lexeme ++ after) : Spells kind lexeme lexeme after
  | string {raw value after : List Char} (h : Content raw value) :
      Spells .string value ('"' :: (raw ++ ['"'])) after
  | comment {body : List Char} (hopen : ¬ ['*', '/'] <:+: body) :
      Spells .invalid ['/', '*'] ('/' :: '*' :: body) []

theorem Spells.kind_ne {kind : TokenKind} {text lexeme after : List Char}
    (h : Spells kind text lexeme after) : kind ≠ .endOfFile := by
  cases h with
  | plain hkind => exact fun heq => hkind (by simp [heq])
  | string => exact TokenKind.noConfusion
  | comment => exact TokenKind.noConfusion

theorem punctuation?_not_mem {c : Char} {kind : TokenKind} (h : punctuation? c = some kind) :
    kind ∉ [.string, .endOfFile] := by
  unfold punctuation? at h
  split at h <;> cases h <;> decide

theorem numberKind_not_mem (fraction percent : List Char) :
    numberKind fraction percent ∉ [.string, .endOfFile] := by
  unfold numberKind
  split
  · split <;> decide
  · decide

theorem beginsComment_iff {cs : List Char} : beginsComment cs ↔ ['/', '*'] <+: cs := by
  unfold beginsComment
  split
  · simp [List.cons_prefix_cons]
  · rename_i hne
    refine ⟨Bool.noConfusion, ?_⟩
    rintro ⟨rest, rfl⟩
    exact absurd rfl (hne rest)

/-- What the scanner takes where no gap begins is a lexeme. -/
theorem spells_splitLexeme {c : Char} {rest : List Char} (h : gapPiece? (c :: rest) = none) :
    Spells (splitLexeme c rest).1.kind (splitLexeme c rest).1.text (splitLexeme c rest).1.raw
      (splitLexeme c rest).2 := by
  unfold splitLexeme
  by_cases hbegins : beginsComment (c :: rest)
  · rw [if_pos hbegins]
    obtain ⟨body, hbody⟩ := beginsComment_iff.mp hbegins
    obtain ⟨rfl, rfl⟩ := List.cons.inj hbody
    have hopen : closeComment body = none := Option.map_eq_none_iff.mp h
    exact .comment (closeComment_eq_none_iff.mp hopen)
  · rw [if_neg hbegins]
    have hplain : ∀ {kind : TokenKind} {lexeme after : List Char}, kind ∉ [.string, .endOfFile] →
        lexeme ++ after = c :: rest → Spells kind lexeme lexeme after := by
      intro kind lexeme after hkind happend
      refine .plain hkind ?_
      rw [happend, ← beginsComment_iff]
      exact hbegins
    cases hpunctuation : punctuation? c with
    | some kind => exact hplain (punctuation?_not_mem hpunctuation) rfl
    | none =>
        dsimp only
        split
        · rename_i hquote
          subst hquote
          unfold StringBody.lexeme
          by_cases hclosed : (splitString rest).closed
          · obtain ⟨raw, hraw, hcontent⟩ := content_splitString hclosed
            rw [if_pos hclosed, hraw]
            exact .string hcontent
          · rw [if_neg hclosed]
            exact hplain (by simp) (by simp [splitString_append])
        · split
          · exact hplain (numberKind_not_mem _ _) (splitNumber_append _)
          · split
            · exact hplain (by simp) (by simp [List.takeWhile_append_dropWhile])
            · exact hplain (by simp) rfl

/-! ### Sources -/

/-- The text after `before` is cut into gaps and lexemes, to which the tokens belong in order; the
last token is the end. -/
inductive Cuts : List Char → List Char → List Token → Prop
  | finish {before gap : List Char} (hgap : Gap gap []) :
      Cuts before gap [⟨.endOfFile, "", .behind (before ++ gap)⟩]
  | token {before gap lexeme rest text : List Char} {kind : TokenKind} {ts : List Token}
      (hgap : Gap gap (lexeme ++ rest))
      (hlongest : ∀ gap' rest', lexeme ++ rest = gap' ++ rest' → Gap gap' rest' → gap' = [])
      (hlexeme : lexeme ≠ []) (hspells : Spells kind text lexeme rest)
      (hrest : Cuts (before ++ gap ++ lexeme) rest ts) :
      Cuts before (gap ++ (lexeme ++ rest))
      (⟨kind, String.ofList text, .behind (before ++ gap)⟩ :: ts)

/-- Only the last token is the end. -/
theorem Cuts.exists_end {before cs : List Char} {ts : List Token} (h : Cuts before cs ts) :
    ∃ ts' eof, ts = ts' ++ [eof] ∧ eof.kind = .endOfFile ∧ ∀ t ∈ ts', t.kind ≠ .endOfFile := by
  induction h with
  | finish => exact ⟨[], _, rfl, rfl, by simp⟩
  | token _ _ _ hspells _ ih =>
      obtain ⟨ts', eof, rfl, heof, hts'⟩ := ih
      exact ⟨_ :: ts', eof, rfl, heof, List.forall_mem_cons.mpr ⟨hspells.kind_ne, hts'⟩⟩

namespace Lexer

theorem next_of_lookahead {l : Lexer} (h : l.lookahead = none) : l.next = l.scan := by
  unfold next
  rw [h]

variable {l : Lexer} {before : List Char}

theorem scan_of_end (hcursor : l.cursor = .behind before) (hafter : (splitGap l.rest).2 = []) :
    l.scan.1 = ⟨.endOfFile, "", .behind (before ++ (splitGap l.rest).1)⟩ := by
  simp only [scan, hafter, tokenAt, hcursor, Position.after_behind]

theorem scan_of_lexeme {c : Char} {cs : List Char} (hcursor : l.cursor = .behind before)
    (hafter : (splitGap l.rest).2 = c :: cs) :
    l.scan = (⟨(splitLexeme c cs).1.kind, String.ofList (splitLexeme c cs).1.text,
        .behind (before ++ (splitGap l.rest).1)⟩,
      { l with
        rest := (splitLexeme c cs).2
        cursor := .behind (before ++ (splitGap l.rest).1 ++ (splitLexeme c cs).1.raw) }) := by
  simp only [scan, hafter, tokenAt, hcursor, Position.after_behind]

/-- Whatever stands before it, a lexer that holds no token cuts the rest of its source. -/
theorem cuts_tokens (l : Lexer) : ∀ before, l.lookahead = none → l.cursor = .behind before →
    Cuts before l.rest l.tokens.1 := by
  -- the induction is on the tokens handed out; what stands before the rest grows by a gap and a
  -- lexeme
  fun_induction tokens l with
  | case1 l t l' hnext hk =>
      intro before hlookahead hcursor
      have hgap := gap_splitGap l.rest
      rw [next_of_lookahead hlookahead] at hnext
      rw [← splitGap_append l.rest]
      cases hafter : (splitGap l.rest).2 with
      | nil =>
          have hscan := scan_of_end hcursor hafter
          rw [hnext] at hscan
          rw [hafter] at hgap
          obtain rfl : t = _ := hscan
          rw [List.append_nil]
          exact .finish hgap
      | cons c cs =>
          have hnone := gapPiece?_splitGap l.rest
          rw [hafter] at hnone
          rw [scan_of_lexeme hcursor hafter] at hnext
          obtain ⟨rfl, -⟩ := Prod.mk.inj hnext
          exact absurd hk (spells_splitLexeme hnone).kind_ne
  | case2 l t l' hnext hk ts l'' hrest ih =>
      intro before hlookahead hcursor
      have hgap := gap_splitGap l.rest
      have hnone := gapPiece?_splitGap l.rest
      rw [next_of_lookahead hlookahead] at hnext
      rw [← splitGap_append l.rest]
      cases hafter : (splitGap l.rest).2 with
      | nil =>
          have hscan := scan_of_end hcursor hafter
          rw [hnext] at hscan
          exact absurd (congrArg Token.kind hscan) hk
      | cons c cs =>
          rw [hafter] at hgap hnone
          rw [scan_of_lexeme hcursor hafter] at hnext
          obtain ⟨rfl, rfl⟩ := Prod.mk.inj hnext
          have htokens := ih _ hlookahead rfl
          rw [hrest] at htokens
          have hspells := spells_splitLexeme hnone
          rw [← splitLexeme_append c cs] at hgap hnone ⊢
          refine .token hgap ?_ (splitLexeme_raw_ne_nil c cs) hspells htokens
          intro gap' rest' heq hgap'
          rw [heq] at hnone
          exact hgap'.eq_nil hnone

end Lexer

/-- **The scanner loses no character, and every position is exact.**  A source is gaps and lexemes
in turn, none of the lexemes empty and none of the gaps extensible.  Its tokens belong to the
lexemes in order and have their texts, but for strings and for a comment that is never closed; each
stands where the characters before its lexeme say.  One token more, in last place, is the end. -/
theorem cuts_tokenize (source : String) :
    Cuts [] source.toList (tokenize source) ∧
      ∃ ts eof, tokenize source = ts ++ [eof] ∧ eof.kind = .endOfFile ∧
      ∀ t ∈ ts, t.kind ≠ .endOfFile := by
  have hcuts := Lexer.cuts_tokens (.ofSource source) [] rfl rfl
  exact ⟨hcuts, hcuts.exists_end⟩

end WidgetLayout
