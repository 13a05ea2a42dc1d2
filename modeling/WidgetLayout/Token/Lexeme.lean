/-
Lexemes: the pieces of a source, cut at the gaps between them.

A source is gap, lexeme, gap, lexeme and so on to its end.  A gap is made of blanks, line comments
and closed block comments; `splitGap` takes the longest gap from the front.  What follows a gap
begins a lexeme, and `splitLexeme` takes the longest one.  Both only split: joining the two parts
gives back what was split (`splitGap_append`, `splitLexeme_append`), so no character of a source is
lost, and a lexeme is never empty, so cutting a source ends.
-/
import WidgetLayout.Text.Blank
import WidgetLayout.Text.Numeral
import WidgetLayout.Token

namespace WidgetLayout

open WidgetLayout.Text (isBlank isDigit)

/-! ### Gaps -/

/-- Splits what follows the opening mark of a block comment after its closing mark, if it has
one. -/
def closeComment : List Char → Option (List Char × List Char)
  | [] => none
  | '*' :: '/' :: rest => some (['*', '/'], rest)
  | c :: rest => (closeComment rest).map fun (body, rest) => (c :: body, rest)

theorem closeComment_append {cs body rest : List Char} (h : closeComment cs = some (body, rest)) :
    body ++ rest = cs := by
  induction cs using closeComment.induct generalizing body rest with
  | case1 => simp [closeComment] at h
  | case2 rest' =>
      simp only [closeComment, Option.some.injEq, Prod.mk.injEq] at h; simp [← h.1, ← h.2]
  | case3 c cs hne ih =>
      rw [closeComment] at h
      · obtain ⟨⟨b, r⟩, hb, he⟩ := Option.map_eq_some_iff.1 h
        simp only [Prod.mk.injEq] at he
        rw [← he.1, ← he.2, List.cons_append, ih hb]
      · exact hne

/-- Splits off one blank, one line comment without its newline, or one closed block comment. -/
def gapPiece? : List Char → Option (List Char × List Char)
  | '/' :: '/' :: rest =>
    some ('/' :: '/' :: rest.takeWhile (· ≠ '\n'), rest.dropWhile (· ≠ '\n'))
  | '/' :: '*' :: rest => (closeComment rest).map fun (body, rest) => ('/' :: '*' :: body, rest)
  | c :: rest => if isBlank c then some ([c], rest) else none
  | [] => none

theorem gapPiece?_append {cs piece rest : List Char} (h : gapPiece? cs = some (piece, rest)) :
    piece ++ rest = cs ∧ piece ≠ [] := by
  unfold gapPiece? at h
  split at h
  · simp only [Option.some.injEq, Prod.mk.injEq] at h
    simp only [← h.1, ← h.2, List.cons_append, List.takeWhile_append_dropWhile]
    simp
  · obtain ⟨⟨b, r⟩, hb, he⟩ := Option.map_eq_some_iff.1 h
    simp only [Prod.mk.injEq] at he
    simp only [← he.1, ← he.2, List.cons_append, closeComment_append hb]
    simp
  · split at h
    · simp only [Option.some.injEq, Prod.mk.injEq] at h
      simp [← h.1, ← h.2]
    · simp at h
  · simp at h

/-- Splits off the gap that a text begins with. -/
def splitGap (cs : List Char) : List Char × List Char :=
  match _h : gapPiece? cs with
  | none => ([], cs)
  | some (piece, rest) =>
    let (gap, rest') := splitGap rest
    (piece ++ gap, rest')
termination_by cs.length
decreasing_by
  obtain ⟨happ, hne⟩ := gapPiece?_append _h
  rw [← happ, List.length_append]
  have := List.length_pos_iff.2 hne
  omega

theorem splitGap_append (cs : List Char) : (splitGap cs).1 ++ (splitGap cs).2 = cs := by
  fun_induction splitGap cs with
  | case1 cs h => rfl
  | case2 cs piece rest h gap rest' hgap ih =>
      rw [hgap] at ih
      rw [List.append_assoc, ih, (gapPiece?_append h).1]

/-! ### Words and numbers -/

/-- A piece of a source between two gaps. -/
structure Lexeme where
  kind : TokenKind
  /-- The text of its token. -/
  text : List Char
  /-- The characters it occupies. -/
  raw : List Char

/-- Whether a character can begin an identifier. -/
def isWordStart (c : Char) : Bool := c.isAlpha || c = '_'

/-- Whether a character can continue an identifier. -/
def isWordPart (c : Char) : Bool := c.isAlphanum || c = '_'

/-- Splits off the fraction that a text begins with: a point and the digits after it, if there are
any. -/
def splitFraction : List Char → List Char × List Char
  | '.' :: d :: rest =>
    if isDigit d then ('.' :: d :: rest.takeWhile isDigit, rest.dropWhile isDigit)
    else ([], '.' :: d :: rest)
  | rest => ([], rest)

theorem splitFraction_append (cs : List Char) :
    (splitFraction cs).1 ++ (splitFraction cs).2 = cs := by
  unfold splitFraction
  split
  · split <;> simp [List.takeWhile_append_dropWhile]
  · simp

/-- Splits off the minus sign that a text begins with, if it does. -/
def splitSign : List Char → List Char × List Char
  | '-' :: rest => (['-'], rest)
  | rest => ([], rest)

theorem splitSign_append (cs : List Char) : (splitSign cs).1 ++ (splitSign cs).2 = cs := by
  unfold splitSign
  split <;> simp

/-- Splits off the percent sign that a text begins with, if it does. -/
def splitPercent : List Char → List Char × List Char
  | '%' :: rest => (['%'], rest)
  | rest => ([], rest)

theorem splitPercent_append (cs : List Char) : (splitPercent cs).1 ++ (splitPercent cs).2 = cs := by
  unfold splitPercent
  split <;> simp

/-- The kind of a number with a fraction and a percent sign, either of which may be empty. -/
def numberKind (fraction percent : List Char) : TokenKind :=
  if percent = [] then if fraction = [] then .integer else .number else .percentage

/-- Splits off the number that a text begins with, as a lexeme. -/
def splitNumber (cs : List Char) : Lexeme × List Char :=
  let sign := splitSign cs
  let whole := sign.2.takeWhile isDigit
  let fraction := splitFraction (sign.2.dropWhile isDigit)
  let percent := splitPercent fraction.2
  let raw := sign.1 ++ (whole ++ (fraction.1 ++ percent.1))
  (⟨numberKind fraction.1 percent.1, raw, raw⟩, percent.2)

theorem splitNumber_append (cs : List Char) :
    (splitNumber cs).1.raw ++ (splitNumber cs).2 = cs := by
  simp only [splitNumber, List.append_assoc, splitPercent_append, splitFraction_append,
    List.takeWhile_append_dropWhile, splitSign_append]

/-! ### Strings -/

/-- What a string that begins after its opening quote was found to be. -/
structure StringBody where
  /-- What the characters stand for. -/
  value : List Char
  /-- The characters themselves, with the closing quote if there is one. -/
  raw : List Char
  closed : Bool
  rest : List Char

/-- What a backslash and the character after it stand for. -/
def unescape : Char → List Char
  | 'n' => ['\n']
  | 't' => ['\t']
  | 'r' => ['\r']
  | '\\' => ['\\']
  | '"' => ['"']
  | '\'' => ['\'']
  | c => ['\\', c]

/-- Puts characters in front of a string body. -/
def StringBody.cons (value raw : List Char) (b : StringBody) : StringBody :=
  { b with value := value ++ b.value, raw := raw ++ b.raw }

/-- Splits off the string whose opening quote has been taken; it ends at a line end that has no
backslash before it. -/
def splitString : List Char → StringBody
  | [] => ⟨[], [], false, []⟩
  | '"' :: rest => ⟨[], ['"'], true, rest⟩
  | '\n' :: rest => ⟨[], [], false, '\n' :: rest⟩
  | '\r' :: rest => ⟨[], [], false, '\r' :: rest⟩
  | ['\\'] => ⟨[], ['\\'], false, []⟩
  | '\\' :: c :: rest => (splitString rest).cons (unescape c) ['\\', c]
  | c :: rest => (splitString rest).cons [c] [c]

theorem splitString_append (cs : List Char) :
    (splitString cs).raw ++ (splitString cs).rest = cs := by
  induction cs using splitString.induct with
  | case7 c rest h1 h2 h3 h4 h5 ih =>
      rw [splitString]
      · simp [StringBody.cons, ih]
      all_goals assumption
  | _ => simp_all [splitString, StringBody.cons]

/-- The lexeme of a string, its opening quote included; unclosed, it is invalid and keeps its
backslashes. -/
def StringBody.lexeme (b : StringBody) : Lexeme × List Char :=
  if b.closed then (⟨.string, b.value, '"' :: b.raw⟩, b.rest)
  else (⟨.invalid, '"' :: b.raw, '"' :: b.raw⟩, b.rest)

theorem lexeme_append (cs : List Char) :
    (splitString cs).lexeme.1.raw ++ (splitString cs).lexeme.2 = '"' :: cs := by
  unfold StringBody.lexeme
  split <;> simp [splitString_append]

/-! ### Lexemes -/

/-- The kind of a punctuation character. -/
def punctuation? : Char → Option TokenKind
  | '\x7b' => some .openBrace
  | '\x7d' => some .closeBrace
  | '(' => some .openParens
  | ')' => some .closeParens
  | ':' => some .colon
  | ';' => some .semicolon
  | ',' => some .comma
  | _ => none

/-- Whether a text begins with a digit. -/
def beginsWithDigit : List Char → Bool
  | c :: _ => isDigit c
  | [] => false

/-- Whether a text begins with the opening mark of a block comment. -/
def beginsComment : List Char → Bool
  | '/' :: '*' :: _ => true
  | _ => false

/--
Splits off the lexeme that begins with `c` and goes on in `rest`, where no gap begins.  A block
comment can only begin here if it is never closed: it is then the last lexeme.
-/
def splitLexeme (c : Char) (rest : List Char) : Lexeme × List Char :=
  if beginsComment (c :: rest) then (⟨.invalid, ['/', '*'], c :: rest⟩, [])
  else match punctuation? c with
    | some kind => (⟨kind, [c], [c]⟩, rest)
    | none =>
      if c = '"' then (splitString rest).lexeme
      else if isDigit c || (c = '-' && beginsWithDigit rest) then splitNumber (c :: rest)
      else if isWordStart c then
        let raw := c :: rest.takeWhile isWordPart
        (⟨.identifier, raw, raw⟩, rest.dropWhile isWordPart)
      else (⟨.invalid, [c], [c]⟩, rest)

theorem splitLexeme_append (c : Char) (rest : List Char) :
    (splitLexeme c rest).1.raw ++ (splitLexeme c rest).2 = c :: rest := by
  unfold splitLexeme
  split
  · simp
  · split
    · rfl
    · split
      · rename_i hc
        rw [hc]
        exact lexeme_append rest
      · split
        · exact splitNumber_append (c :: rest)
        · split
          · simp [List.takeWhile_append_dropWhile]
          · rfl

theorem splitNumber_raw_ne_nil {c : Char} {rest : List Char} (h : isDigit c ∨ c = '-') :
    (splitNumber (c :: rest)).1.raw ≠ [] := by
  by_cases hc : c = '-'
  · subst hc
    simp [splitNumber, splitSign]
  · have hd : isDigit c = true := h.resolve_right hc
    have hs : splitSign (c :: rest) = ([], c :: rest) := by
      unfold splitSign
      split
      · rename_i heq
        exact absurd (List.cons.inj heq).1 hc
      · rfl
    simp [splitNumber, hs, hd]

theorem splitLexeme_raw_ne_nil (c : Char) (rest : List Char) : (splitLexeme c rest).1.raw ≠ [] := by
  unfold splitLexeme
  split
  · simp
  · split
    · simp
    · split
      · unfold StringBody.lexeme
        split <;> simp
      · split
        · rename_i h
          simp only [Bool.or_eq_true, Bool.and_eq_true, decide_eq_true_eq] at h
          exact splitNumber_raw_ne_nil (h.imp id And.left)
        · split <;> simp

/-- What follows a lexeme is shorter than what it began. -/
theorem splitLexeme_length_lt (c : Char) (rest : List Char) :
    (splitLexeme c rest).2.length < (c :: rest).length := by
  have happ := congrArg List.length (splitLexeme_append c rest)
  have hpos := List.length_pos_iff.2 (splitLexeme_raw_ne_nil c rest)
  rw [List.length_append] at happ
  omega

end WidgetLayout
