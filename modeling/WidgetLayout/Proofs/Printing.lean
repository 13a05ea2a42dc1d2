/-
Scanning undoes printing.

A word is what a token is, wherever it stands: an identifier, a number, a punctuation mark or a
string.  It is printed as its text, and a string between quotes with its special characters escaped.
Words are printed one after the other, with separators around them: blanks, line comments with their
newlines and closed block comments.  Scanning what was printed gives the words back, whatever the
separators are.

One argument carries this: a separator that stands in front is skipped (`splitGap_separators`), and
a word that stands in front is taken as it is, because what can follow it does not extend it
(`splitLexeme_print`).
-/
import WidgetLayout.Proofs.Scanning
import WidgetLayout.Proofs.TokenStream

namespace WidgetLayout

open WidgetLayout.Text (isBlank isDigit)

/-! ### Separators -/

/-- A piece of what may stand between words. -/
inductive Separator
  | blank (c : Char) (h : isBlank c)
  | line (body : List Char) (h : '\n' ∉ body)
  | block (body : List Char) (h : ¬ ['*', '/'] <:+: body)

namespace Separator

/-- The characters of a separator; a line comment has its newline with it. -/
def text : Separator → List Char
  | .blank c _ => [c]
  | .line body _ => '/' :: '/' :: (body ++ ['\n'])
  | .block body _ => '/' :: '*' :: (body ++ ['*', '/'])

/-- The characters of separators in a row. -/
def texts (separators : List Separator) : List Char := separators.flatMap text

end Separator

/-! ### Words

A word comes with the proofs that it is one: an identifier begins with a letter, and a number has
digits. -/

/-- One decimal digit or more. -/
structure Digits where
  chars : List Char
  ne_nil : chars ≠ []
  digits : ∀ c ∈ chars, isDigit c

/-- The punctuation marks and their kinds. -/
def punctuationMarks : List (Char × TokenKind) :=
  [('\x7b', .openBrace), ('\x7d', .closeBrace), ('(', .openParens), (')', .closeParens),
    (':', .colon), (';', .semicolon), (',', .comma)]

/-- A word that can be printed. -/
inductive Word
  | identifier (first : Char) (rest : List Char) (hfirst : isWordStart first)
      (hrest : ∀ c ∈ rest, isWordPart c)
  | number (negative : Bool) (whole : Digits) (fraction : Option Digits) (percent : Bool)
  | punctuation (mark : Char × TokenKind) (h : mark ∈ punctuationMarks)
  | string (content : List Char)

/-- A character as it stands between the quotes of a string. -/
def escapeChar : Char → List Char
  | '\\' => ['\\', '\\']
  | '"' => ['\\', '"']
  | '\n' => ['\\', 'n']
  | '\r' => ['\\', 'r']
  | '\t' => ['\\', 't']
  | c => [c]

/-- A text as it stands between the quotes of a string. -/
def escape (content : List Char) : List Char := content.flatMap escapeChar

namespace Word

/-- The kind of the token that a word is. -/
def kind : Word → TokenKind
  | .identifier .. => .identifier
  | .number _ _ _ true => .percentage
  | .number _ _ (some _) false => .number
  | .number _ _ none false => .integer
  | .punctuation mark _ => mark.2
  | .string _ => .string

/-- The point and the digits of a fraction, if there is one. -/
def fractionText : Option Digits → List Char
  | some ds => '.' :: ds.chars
  | none => []

/-- The text of the token that a word is. -/
def text : Word → List Char
  | .identifier first rest _ _ => first :: rest
  | .number negative whole fraction percent =>
    (if negative then ['-'] else []) ++
      (whole.chars ++ (fractionText fraction ++ if percent then ['%'] else []))
  | .punctuation mark _ => [mark.1]
  | .string content => content

/-- The characters that a word is printed as. -/
def print : Word → List Char
  | .string content => '"' :: (escape content ++ ['"'])
  | w => w.text

/-- Kind and text of the token that a word is. -/
def face (w : Word) : TokenKind × String := (w.kind, String.ofList w.text)

end Word

/-- Words with separators in front of them and after each of them. -/
def printed (before : List Separator) (words : List (Word × List Separator)) : List Char :=
  Separator.texts before ++ words.flatMap fun w => w.1.print ++ Separator.texts w.2

/-! ### Skipping separators -/

/-- Characters of a class are taken to their end where the next one is not of the class. -/
theorem takeWhile_append_stop {p : Char → Bool} {cs rest : List Char} (hcs : ∀ c ∈ cs, p c)
    (hrest : ∀ c, rest.head? = some c → ¬ p c) :
    (cs ++ rest).takeWhile p = cs ∧ (cs ++ rest).dropWhile p = rest := by
  rw [List.takeWhile_append_of_pos hcs, List.dropWhile_append_of_pos hcs]
  cases rest with
  | nil => simp
  | cons c rest => simp [hrest c rfl]

/-- A slash apart, only a blank is a gap by itself. -/
theorem gapPiece?_of_ne {c : Char} (h : c ≠ '/') (cs : List Char) :
    gapPiece? (c :: cs) = if isBlank c then some ([c], cs) else none := by
  unfold gapPiece?
  split
  · rename_i heq
    exact absurd (List.cons.inj heq).1 h
  · rename_i heq
    exact absurd (List.cons.inj heq).1 h
  · rename_i heq
    obtain ⟨rfl, rfl⟩ := List.cons.inj heq
    rfl
  · rename_i heq
    cases heq

theorem gapPiece?_of_isBlank {c : Char} (h : isBlank c) (cs : List Char) :
    gapPiece? (c :: cs) = some ([c], cs) := by
  have hslash : c ≠ '/' := by
    rintro rfl
    exact absurd h (by decide)
  rw [gapPiece?_of_ne hslash, if_pos h]

/-- A comment is closed by the first mark that closes it. -/
theorem closeComment_append_mark {body : List Char} (h : ¬ ['*', '/'] <:+: body)
    (rest : List Char) :
    closeComment (body ++ '*' :: '/' :: rest) = some (body ++ ['*', '/'], rest) := by
  induction body with
  | nil => rfl
  | cons c body ih =>
      rw [closes_cons_iff, not_or] at h
      have hfront : ¬ (c = '*' ∧ (body ++ '*' :: '/' :: rest).head? = some '/') := by
        intro hc
        apply h.1
        cases body with
        | nil => simp at hc
        | cons d body => simpa using hc
      rw [List.cons_append, closeComment_cons hfront, ih h.2]
      rfl

theorem splitGap_of_gapPiece? {cs piece rest : List Char} (h : gapPiece? cs = some (piece, rest)) :
    (splitGap cs).2 = (splitGap rest).2 := by
  rw [splitGap]
  split
  · rename_i hnone
    rw [h] at hnone
    cases hnone
  · rename_i piece' rest' hsome
    rw [h] at hsome
    obtain ⟨rfl, rfl⟩ := Prod.mk.inj (Option.some.inj hsome)
    rfl

/-- A separator in front of a text is skipped. -/
theorem splitGap_separator (s : Separator) (cs : List Char) :
    (splitGap (s.text ++ cs)).2 = (splitGap cs).2 := by
  cases s with
  | blank c h => exact splitGap_of_gapPiece? (gapPiece?_of_isBlank h cs)
  | line body h =>
      have hbody : ∀ c ∈ body, decide (c ≠ '\n') = true := by
        intro c hc
        simpa using fun heq : c = '\n' => h (heq ▸ hc)
      have hend : ∀ c, ('\n' :: cs).head? = some c → ¬ decide (c ≠ '\n') = true := by simp
      obtain ⟨htake, hdrop⟩ := takeWhile_append_stop hbody hend
      have hline : gapPiece? ('/' :: '/' :: (body ++ '\n' :: cs)) =
          some ('/' :: '/' :: body, '\n' :: cs) := by
        show some ('/' :: '/' :: (body ++ '\n' :: cs).takeWhile (· ≠ '\n'),
          (body ++ '\n' :: cs).dropWhile (· ≠ '\n')) = _
        rw [htake, hdrop]
      have hnewline : isBlank '\n' := by decide
      rw [Separator.text, List.cons_append, List.cons_append, List.append_assoc,
        List.singleton_append,
        splitGap_of_gapPiece? hline, splitGap_of_gapPiece? (gapPiece?_of_isBlank hnewline cs)]
  | block body h =>
      have hblock : gapPiece? ('/' :: '*' :: (body ++ '*' :: '/' :: cs)) =
          some ('/' :: '*' :: (body ++ ['*', '/']), cs) := by
        show (closeComment (body ++ '*' :: '/' :: cs)).map _ = _
        rw [closeComment_append_mark h]
        rfl
      rw [Separator.text, List.cons_append, List.cons_append, List.append_assoc]
      exact splitGap_of_gapPiece? hblock

/-- All separators in front of a text are skipped, and nothing else is. -/
theorem splitGap_separators (separators : List Separator) {cs : List Char}
    (h : gapPiece? cs = none) : (splitGap (Separator.texts separators ++ cs)).2 = cs := by
  induction separators with
  | nil =>
      have hgap := (gap_splitGap cs).eq_nil (by rw [splitGap_append]; exact h)
      have happend := splitGap_append cs
      rw [hgap] at happend
      exact happend
  | cons s separators ih =>
      rw [Separator.texts, List.flatMap_cons, List.append_assoc, splitGap_separator]
      exact ih

/-! ### Classes of characters

The classes that words are made of, spelled out: letters and digits are those of ASCII. -/

theorem isWordStart_iff {c : Char} :
    isWordStart c ↔ 'A' ≤ c ∧ c ≤ 'Z' ∨ 'a' ≤ c ∧ c ≤ 'z' ∨ c = '_' := by
  unfold isWordStart Char.isAlpha Char.isUpper Char.isLower
  simp only [Bool.or_eq_true, Bool.and_eq_true, decide_eq_true_eq, ge_iff_le, Char.le_def, or_assoc]

theorem isDigit_iff_between {c : Char} : isDigit c ↔ '0' ≤ c ∧ c ≤ '9' := by
  simp only [isDigit, Bool.and_eq_true, decide_eq_true_eq]

theorem isDigit_iff {c : Char} : isDigit c ↔ 48 ≤ c.toNat ∧ c.toNat ≤ 57 := by
  rw [isDigit_iff_between, Char.le_def, Char.le_def, UInt32.le_iff_toNat_le, UInt32.le_iff_toNat_le]
  rfl

theorem toNat_of_isWordStart {c : Char} (h : isWordStart c) :
    65 ≤ c.toNat ∧ c.toNat ≤ 90 ∨ c.toNat = 95 ∨ 97 ≤ c.toNat ∧ c.toNat ≤ 122 := by
  rcases isWordStart_iff.mp h with h | h | rfl
  · exact .inl h
  · exact .inr (.inr h)
  · exact .inr (.inl rfl)

theorem isWordPart_iff {c : Char} : isWordPart c ↔ isWordStart c ∨ isDigit c := by
  have hdigit : c.isDigit = true ↔ isDigit c := by
    simp only [Char.isDigit, isDigit, Char.le_def, Bool.and_eq_true, decide_eq_true_eq, ge_iff_le]
  simp only [isWordPart, isWordStart, Char.isAlphanum, Bool.or_eq_true, hdigit]
  exact or_right_comm

theorem not_isDigit_of_isWordStart {c : Char} (h : isWordStart c) : ¬ isDigit c := by
  have hcode := toNat_of_isWordStart h
  rw [isDigit_iff]
  omega

theorem not_isBlank_of_isWordPart {c : Char} (h : isWordPart c) : ¬ isBlank c := by
  have hcode : 48 ≤ c.toNat ∧ c.toNat ≤ 122 := by
    rcases isWordPart_iff.mp h with hstart | hdigit
    · have := toNat_of_isWordStart hstart
      omega
    · have := isDigit_iff.mp hdigit
      omega
  simp only [isBlank, Bool.or_eq_true, Bool.and_eq_true, decide_eq_true_eq, beq_iff_eq]
  omega

theorem punctuation?_of_isWordPart {c : Char} (h : isWordPart c) : punctuation? c = none := by
  unfold punctuation?
  split
  all_goals first | rfl | exact absurd h (by decide)

/-! ### Taking words

What stands behind a word must not extend it.  `Delimits` says which texts extend none. -/

/-- A text that extends no word: it is empty, or a separator begins it. -/
def EndsWord (after : List Char) : Prop := ∀ c, after.head? = some c → isBlank c ∨ c = '/'

/-- A text with which no word could go on. -/
def Delimits (after : List Char) : Prop :=
  ∀ c, after.head? = some c → ¬ isWordPart c ∧ c ≠ '.' ∧ c ≠ '%'

theorem EndsWord.delimits {after : List Char} (h : EndsWord after) : Delimits after := by
  intro c hc
  rcases h c hc with hblank | rfl
  · refine ⟨fun hpart => not_isBlank_of_isWordPart hpart hblank, ?_, ?_⟩
    · rintro rfl
      exact absurd hblank (by decide)
    · rintro rfl
      exact absurd hblank (by decide)
  · decide

theorem endsWord_separators {s : Separator} (separators : List Separator) (cs : List Char) :
    EndsWord (Separator.texts (s :: separators) ++ cs) := by
  intro c hc
  cases s with
  | blank d h =>
      obtain rfl : d = c := by simpa [Separator.texts, Separator.text] using hc
      exact .inl h
  | line body h =>
      exact .inr (by simpa [Separator.texts, Separator.text, eq_comm] using hc)
  | block body h =>
      exact .inr (by simpa [Separator.texts, Separator.text, eq_comm] using hc)

theorem splitSign_number (negative : Bool) (whole : Digits) (rest : List Char) :
    splitSign ((if negative then ['-'] else []) ++ (whole.chars ++ rest)) =
      ((if negative then ['-'] else []), whole.chars ++ rest) := by
  cases negative with
  | true => rfl
  | false =>
      obtain ⟨d, ds, hchars⟩ := List.exists_cons_of_ne_nil whole.ne_nil
      have hd := whole.digits d (by simp [hchars])
      simp only [hchars, List.cons_append, Bool.false_eq_true, if_false, List.nil_append]
      rw [splitSign]
      rintro rest' heq
      obtain ⟨rfl, -⟩ := List.cons.inj heq
      exact absurd hd (by decide)

theorem splitPercent_number (percent : Bool) {after : List Char} (h : Delimits after) :
    splitPercent ((if percent then ['%'] else []) ++ after) =
      ((if percent then ['%'] else []), after) := by
  cases percent with
  | true => rfl
  | false =>
      show splitPercent after = ([], after)
      rw [splitPercent]
      rintro rest rfl
      exact absurd rfl (h '%' rfl).2.2

/-- What can follow the whole part of a number, if not its fraction. -/
theorem splitFraction_number (fraction : Option Digits) {rest : List Char}
    (hrest : ∀ c, rest.head? = some c → ¬ isDigit c ∧ c ≠ '.') :
    splitFraction (Word.fractionText fraction ++ rest) = (Word.fractionText fraction, rest) := by
  cases fraction with
  | none =>
      show splitFraction rest = ([], rest)
      rw [splitFraction]
      rintro d rest' rfl
      exact absurd rfl (hrest '.' rfl).2
  | some ds =>
      obtain ⟨d, cs, hchars⟩ := List.exists_cons_of_ne_nil ds.ne_nil
      have hdigits := ds.digits
      rw [hchars] at hdigits
      obtain ⟨htake, hdrop⟩ :=
        takeWhile_append_stop (fun c hc => hdigits c (List.mem_cons_of_mem d hc))
        fun c hc => (hrest c hc).1
      simp only [Word.fractionText, hchars, List.cons_append]
      rw [splitFraction, if_pos (hdigits d List.mem_cons_self), htake, hdrop]

/-- What follows the digits of a number goes on with no digit and no point. -/
theorem Delimits.not_isDigit {after : List Char} (h : Delimits after) (percent : Bool) {c : Char}
    (hc : ((if percent then ['%'] else []) ++ after).head? = some c) : ¬ isDigit c ∧ c ≠ '.' := by
  cases percent with
  | true =>
      obtain rfl : '%' = c := by simpa using hc
      decide
  | false =>
      have hc : after.head? = some c := hc
      exact ⟨fun hdigit => (h c hc).1 (isWordPart_iff.mpr (.inr hdigit)), (h c hc).2.1⟩

theorem splitNumber_print (negative : Bool) (whole : Digits) (fraction : Option Digits)
    (percent : Bool) {after : List Char} (h : Delimits after) :
    splitNumber ((Word.number negative whole fraction percent).text ++ after) =
      (⟨(Word.number negative whole fraction percent).kind,
        (Word.number negative whole fraction percent).text,
        (Word.number negative whole fraction percent).text⟩, after) := by
  have hrest : ∀ c,
      (Word.fractionText fraction ++ ((if percent then ['%'] else []) ++ after)).head? = some c →
      ¬ isDigit c := by
    intro c hc
    cases fraction with
    | none => exact (h.not_isDigit percent hc).1
    | some ds =>
        obtain rfl : '.' = c := by simpa [Word.fractionText] using hc
        decide
  obtain ⟨htake, hdrop⟩ := takeWhile_append_stop whole.digits hrest
  have hkind : numberKind (Word.fractionText fraction) (if percent then ['%'] else []) =
      (Word.number negative whole fraction percent).kind := by
    cases fraction <;> cases percent <;> rfl
  simp only [Word.text, List.append_assoc, splitNumber, splitSign_number, htake, hdrop,
    splitFraction_number fraction fun c hc => h.not_isDigit percent hc,
    splitPercent_number percent h, hkind]

/-- An escaped character is read as the character. -/
theorem splitString_escapeChar (c : Char) (rest : List Char) :
    splitString (escapeChar c ++ rest) = (splitString rest).cons [c] (escapeChar c) := by
  unfold escapeChar
  split
  · rfl
  · rfl
  · rfl
  · rfl
  · rfl
  · rename_i hbackslash hquote hnewline hreturn _
    rw [List.singleton_append, splitString]
    · exact hquote
    · exact hnewline
    · exact hreturn
    · intro hc _
      exact hbackslash hc
    · intro d ds hc _
      exact hbackslash hc

/-- A string is read up to the quote that closes it, and stands for what was escaped. -/
theorem splitString_escape (content after : List Char) :
    splitString (escape content ++ '"' :: after) =
      ⟨content, escape content ++ ['"'], true, after⟩ := by
  induction content with
  | nil => rfl
  | cons c content ih =>
      rw [escape, List.flatMap_cons, List.append_assoc, splitString_escapeChar, List.append_assoc]
      exact congrArg (StringBody.cons [c] (escapeChar c)) ih

/-- Where neither a slash nor a blank stands, no comment and no gap begins. -/
theorem gapPiece?_eq_none {c : Char} (hslash : c ≠ '/') (hblank : ¬ isBlank c) (cs : List Char) :
    gapPiece? (c :: cs) = none ∧ beginsComment (c :: cs) = false := by
  refine ⟨?_, ?_⟩
  · rw [gapPiece?_of_ne hslash, if_neg hblank]
  · rw [beginsComment]
    intro rest heq
    exact hslash (List.cons.inj heq).1

theorem splitLexeme_identifier {first : Char} {rest after : List Char} (hfirst : isWordStart first)
    (hrest : ∀ c ∈ rest, isWordPart c) (h : Delimits after) :
    gapPiece? (first :: (rest ++ after)) = none ∧
      splitLexeme first (rest ++ after) = (⟨.identifier, first :: rest, first :: rest⟩, after) := by
  have hpart := isWordPart_iff.mpr (.inl hfirst)
  have hne : ∀ c, ¬ isWordPart c → first ≠ c := fun c hc heq => hc (heq ▸ hpart)
  have hmark : first ≠ '/' ∧ first ≠ '"' ∧ first ≠ '-' :=
    ⟨hne _ (by decide), hne _ (by decide), hne _ (by decide)⟩
  obtain ⟨hgap, hcomment⟩ :=
    gapPiece?_eq_none hmark.1 (not_isBlank_of_isWordPart hpart) (rest ++ after)
  obtain ⟨htake, hdrop⟩ := takeWhile_append_stop hrest fun c hc => (h c hc).1
  refine ⟨hgap, ?_⟩
  simp only [splitLexeme, hcomment, punctuation?_of_isWordPart hpart, hmark,
    not_isDigit_of_isWordStart hfirst, hfirst, htake, hdrop]
  rfl

theorem splitLexeme_of_number {c : Char} {cs : List Char}
    (h : isDigit c ∨ c = '-' ∧ beginsWithDigit cs) :
    gapPiece? (c :: cs) = none ∧ splitLexeme c cs = splitNumber (c :: cs) := by
  rcases h with hdigit | ⟨rfl, hdigit⟩
  · have hpart := isWordPart_iff.mpr (.inr hdigit)
    have hne : ∀ d, ¬ isWordPart d → c ≠ d := fun d hd heq => hd (heq ▸ hpart)
    have hmark : c ≠ '/' ∧ c ≠ '"' := ⟨hne _ (by decide), hne _ (by decide)⟩
    obtain ⟨hgap, hcomment⟩ := gapPiece?_eq_none hmark.1 (not_isBlank_of_isWordPart hpart) cs
    refine ⟨hgap, ?_⟩
    simp only [splitLexeme, hcomment, punctuation?_of_isWordPart hpart, hmark, hdigit]
    rfl
  · obtain ⟨hgap, hcomment⟩ := gapPiece?_eq_none (by decide : '-' ≠ '/') (by decide) cs
    refine ⟨hgap, ?_⟩
    simp only [splitLexeme, hcomment, hdigit]
    rfl

/-- A number begins with a digit or with a sign before one. -/
theorem text_number_append (negative : Bool) (whole : Digits) (fraction : Option Digits)
    (percent : Bool) (after : List Char) :
    ∃ c cs, (Word.number negative whole fraction percent).text ++ after = c :: cs ∧
      (isDigit c ∨ c = '-' ∧ beginsWithDigit cs) := by
  obtain ⟨d, ds, hchars⟩ := List.exists_cons_of_ne_nil whole.ne_nil
  have hd := whole.digits d (by simp [hchars])
  simp only [Word.text, hchars, List.cons_append]
  cases negative with
  | true => exact ⟨'-', _, rfl, .inr ⟨rfl, hd⟩⟩
  | false => exact ⟨d, _, rfl, .inl hd⟩

/-- Every word begins with a character that begins no gap, and the scanner takes the word up to its
end. -/
theorem splitLexeme_print (w : Word) {after : List Char} (h : Delimits after) :
    ∃ c cs, w.print ++ after = c :: cs ∧ gapPiece? (c :: cs) = none ∧
      splitLexeme c cs = (⟨w.kind, w.text, w.print⟩, after) := by
  cases w with
  | identifier first rest hfirst hrest =>
      exact ⟨first, rest ++ after, rfl, splitLexeme_identifier hfirst hrest h⟩
  | number negative whole fraction percent =>
      obtain ⟨c, cs, happend, hfirst⟩ := text_number_append negative whole fraction percent after
      obtain ⟨hgap, hlexeme⟩ := splitLexeme_of_number hfirst
      refine ⟨c, cs, happend, hgap, ?_⟩
      rw [hlexeme, ← happend]
      exact splitNumber_print negative whole fraction percent h
  | punctuation mark hmark =>
      have hmarks : ∀ mark ∈ punctuationMarks,
          mark.1 ≠ '/' ∧ ¬ isBlank mark.1 ∧ punctuation? mark.1 = some mark.2 := by decide
      obtain ⟨hslash, hblank, hkind⟩ := hmarks mark hmark
      obtain ⟨hgap, hcomment⟩ := gapPiece?_eq_none hslash hblank after
      refine ⟨mark.1, after, rfl, hgap, ?_⟩
      simp only [splitLexeme, hcomment, hkind]
      rfl
  | string content =>
      have hclose : (escape content ++ ['"']) ++ after = escape content ++ '"' :: after := by simp
      refine ⟨'"', escape content ++ '"' :: after, ?_, ?_, ?_⟩
      · rw [← hclose]
        rfl
      · exact (gapPiece?_eq_none (by decide) (by decide) _).1
      · show (splitString (escape content ++ '"' :: after)).lexeme = _
        rw [splitString_escape]
        rfl

/-! ### Whole sources -/

/-- Separators stand between any two words. -/
def Separated (words : List (Word × List Separator)) : Prop := ∀ w ∈ words.dropLast, w.2 ≠ []

theorem Separated.tail {w : Word × List Separator} {words : List (Word × List Separator)}
    (h : Separated (w :: words)) : Separated words := by
  cases words with
  | nil => simp [Separated]
  | cons v words => exact fun u hu => h u (List.mem_cons_of_mem w hu)

/-- What follows a word in a printed source does not extend it. -/
theorem Separated.endsWord {w : Word × List Separator} {words : List (Word × List Separator)}
    (h : Separated (w :: words)) : EndsWord (printed w.2 words) := by
  cases hafter : w.2 with
  | cons s separators => exact endsWord_separators separators _
  | nil =>
      cases words with
      | nil => simp [printed, Separator.texts, EndsWord]
      | cons v words => exact absurd hafter (h w List.mem_cons_self)

theorem printed_cons (before : List Separator) (w : Word × List Separator)
    (words : List (Word × List Separator)) :
    printed before (w :: words) = Separator.texts before ++ (w.1.print ++ printed w.2 words) := by
  simp [printed]

namespace Lexer

/-- A lexer hands out the token that is next, and the others after it unless it is the end. -/
theorem tokens_fst (l : Lexer) :
    l.tokens.1 = if l.next.1.kind = .endOfFile then [l.next.1]
      else l.next.1 :: l.next.2.tokens.1 := by
  fun_cases tokens l with
  | case1 t l' hnext hk => rw [hnext, if_pos hk]
  | case2 t l' hnext hk ts l'' hrest => rw [hnext, if_neg hk, hrest]

/-- A lexer at the front of a printed source hands out its words. -/
theorem tokens_printed (words : List (Word × List Separator)) :
    ∀ (before : List Separator) (l : Lexer), Separated words → l.lookahead = none →
      l.rest = printed before words →
        l.tokens.1.map Token.face = words.map (·.1.face) ++ [(.endOfFile, "")] := by
  -- the induction is on the words; the separators after a word are in front of the next one
  induction words with
  | nil =>
      intro before l _ hlookahead hrest
      have hafter : (splitGap l.rest).2 = [] := by
        rw [hrest]
        exact splitGap_separators before rfl
      have hscan : l.scan.1.face = (.endOfFile, "") := by simp [scan, hafter, tokenAt, Token.face]
      have hkind : l.scan.1.kind = .endOfFile := congrArg Prod.fst hscan
      rw [tokens_fst, next_of_lookahead hlookahead, if_pos hkind, List.map_singleton, hscan]
      rfl
  | cons w words ih =>
      intro before l hseparated hlookahead hrest
      obtain ⟨c, cs, happend, hgap, hlexeme⟩ := splitLexeme_print w.1 hseparated.endsWord.delimits
      have hafter : (splitGap l.rest).2 = c :: cs := by
        rw [hrest, printed_cons, happend]
        exact splitGap_separators before hgap
      have hscan : l.scan.1.face = w.1.face ∧ l.scan.2.lookahead = none ∧
          l.scan.2.rest = printed w.2 words := by
        simp [scan, hafter, tokenAt, hlexeme, Token.face, Word.face, hlookahead]
      have hkind : l.scan.1.kind ≠ .endOfFile := by
        have hspells := (spells_splitLexeme hgap).kind_ne
        rw [hlexeme] at hspells
        rw [show l.scan.1.kind = w.1.kind from congrArg Prod.fst hscan.1]
        exact hspells
      rw [tokens_fst, next_of_lookahead hlookahead, if_neg hkind, List.map_cons,
        List.map_cons, hscan.1, ih w.2 _ hseparated.tail hscan.2.1 hscan.2.2]
      rfl

end Lexer

/-- **Scanning undoes printing.**  Print words one after the other, with separators before, after
and between them; only between two words there has to be one.  Then the tokens of what was printed
are the words, in order and with their kinds and texts, and the end. -/
theorem tokenize_printed (before : List Separator) (words : List (Word × List Separator))
    (hseparated : Separated words) :
    (tokenize (String.ofList (printed before words))).map Token.face =
      words.map (·.1.face) ++ [(.endOfFile, "")] :=
  Lexer.tokens_printed words before _ hseparated rfl String.toList_ofList

/-- An identifier, a percentage and a string, with a comment right after the identifier. -/
def labelledWords : List (Word × List Separator) :=
  [(.identifier 'L' ['a', 'b', 'e', 'l'] (by decide) (by simp [isWordPart]),
    [.block ['*'] (by decide)]),
    (.number true ⟨['1'], by simp, by simp [isDigit]⟩
      (some ⟨['5', '0'], by simp, by simp [isDigit]⟩) true, [.blank '\t' (by decide)]),
    (.string ['a', '"', '\\', '\n'], [])]

/-- The comment ends the identifier and begins no number, and the escaped quote does not end the
string. -/
theorem tokenize_printed_label :
    Separated labelledWords ∧
      printed [.line ['x'] (by decide)] labelledWords =
        "//x\nLabel/***/-1.50%\t\"a\\\"\\\\\\n\"".toList ∧
      (tokenize (String.ofList (printed [.line ['x'] (by decide)] labelledWords))).map Token.face =
        [(.identifier, "Label"), (.percentage, "-1.50%"), (.string, "a\"\\\n"),
          (.endOfFile, "")] := by
  have hseparated : Separated labelledWords := by simp [Separated, labelledWords]
  exact ⟨hseparated, by decide, tokenize_printed _ labelledWords hseparated⟩

end WidgetLayout
