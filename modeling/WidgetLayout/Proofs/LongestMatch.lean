/-
Tokens are the longest words of the lexical grammar.

`Matches` gives the four classes of words by their patterns, without the scanner: identifiers,
integers, decimal numbers and percentages.  A token of one of these kinds is the longest text that
begins at its place and belongs to any of the classes.  What is no token of any form is invalid: a
comment or a string that is not closed, or a single character (`Refused`).

A number is decided by looking one character ahead at three points.  That this is enough is
`length_le_splitNumber`: whatever follows a number in a source, the scanner takes at least the
number.
-/
import WidgetLayout.Proofs.StringLines

namespace WidgetLayout

open WidgetLayout.Text (isBlank isDigit)

/-! ### The four classes of words

The classes are patterns of texts and say nothing of where a word ends; that is what `Longest` is
for. -/

/-- The texts that belong to a class of words. -/
inductive Matches : TokenKind → List Char → Prop
  | identifier {first : Char} {rest : List Char} (hfirst : isWordStart first)
      (hrest : ∀ c ∈ rest, isWordPart c) :
      Matches .identifier (first :: rest)
  | integer (negative : Bool) (whole : Digits) :
      Matches .integer ((if negative then ['-'] else []) ++ whole.chars)
  | number {whole : List Char} (hwhole : Matches .integer whole) (fraction : Digits) :
      Matches .number (whole ++ '.' :: fraction.chars)
  | percentage {kind : TokenKind} {text : List Char} (hkind : kind = .integer ∨ kind = .number)
      (htext : Matches kind text) : Matches .percentage (text ++ ['%'])

/-- The class of identifiers, spelled out: a letter or a low line, and then letters, digits and low
lines. -/
theorem matches_identifier_iff {word : List Char} :
    Matches .identifier word ↔ ∃ first rest, word = first :: rest ∧
      ('A' ≤ first ∧ first ≤ 'Z' ∨ 'a' ≤ first ∧ first ≤ 'z' ∨ first = '_') ∧
      ∀ c ∈ rest, ('A' ≤ c ∧ c ≤ 'Z' ∨ 'a' ≤ c ∧ c ≤ 'z' ∨ c = '_') ∨ '0' ≤ c ∧ c ≤ '9' := by
  simp only [← isWordStart_iff, ← isDigit_iff_between, ← isWordPart_iff]
  constructor
  · intro h
    cases h with
    | identifier hfirst hrest => exact ⟨_, _, rfl, hfirst, hrest⟩
  · rintro ⟨first, rest, rfl, hfirst, hrest⟩
    exact .identifier hfirst hrest

/-- A word that is the longest of all words, of whatever class, that a text begins with. -/
structure Longest (kind : TokenKind) (word text : List Char) : Prop where
  matches_word : Matches kind word
  is_front : word <+: text
  length_le : ∀ kind' word', Matches kind' word' → word' <+: text → word'.length ≤ word.length

/-- A number belongs to the class that its kind names. -/
theorem matches_number (negative : Bool) (whole : Digits) (fraction : Option Digits)
    (percent : Bool) :
    Matches (Word.number negative whole fraction percent).kind
      (Word.number negative whole fraction percent).text := by
  have hwhole := Matches.integer negative whole
  cases fraction with
  | none =>
      cases percent with
      | false => simpa [Word.text, Word.kind, Word.fractionText] using hwhole
      | true =>
          simpa [Word.text, Word.kind, Word.fractionText] using Matches.percentage (.inl rfl) hwhole
  | some ds =>
      have hnumber := Matches.number hwhole ds
      cases percent with
      | false => simpa [Word.text, Word.kind, Word.fractionText] using hnumber
      | true =>
          simpa [Word.text, Word.kind, Word.fractionText] using
            Matches.percentage (.inr rfl) hnumber

/-- A word is an identifier or a number. -/
theorem Matches.eq_text {kind : TokenKind} {word : List Char} (h : Matches kind word) :
    (∃ first rest, word = first :: rest ∧ isWordStart first ∧ ∀ c ∈ rest, isWordPart c) ∨
      ∃ negative whole fraction percent,
        word = (Word.number negative whole fraction percent).text := by
  cases h with
  | identifier hfirst hrest => exact .inl ⟨_, _, rfl, hfirst, hrest⟩
  | integer negative whole =>
      exact .inr ⟨negative, whole, none, false, by simp [Word.text, Word.fractionText]⟩
  | number hwhole fraction =>
      cases hwhole with
      | integer negative whole =>
          exact .inr ⟨negative, whole, some fraction, false, by simp [Word.text, Word.fractionText]⟩
  | percentage hkind htext =>
      rcases hkind with rfl | rfl
      · cases htext with
        | integer negative whole =>
            exact .inr ⟨negative, whole, none, true, by simp [Word.text, Word.fractionText]⟩
      · cases htext with
        | number hwhole fraction =>
            cases hwhole with
            | integer negative whole =>
                exact .inr
                  ⟨negative, whole, some fraction, true, by simp [Word.text, Word.fractionText]⟩

/-! ### Numbers

A number is taken in parts, and each part as far as it goes.  None of these decisions gives a
longer number away. -/

/-- Digits are taken with all digits after them. -/
theorem length_le_takeWhile (ds : Digits) (after : List Char) :
    ds.chars.length ≤ ((ds.chars ++ after).takeWhile isDigit).length := by
  rw [List.takeWhile_append_of_pos ds.digits, List.length_append]
  exact Nat.le_add_right _ _

/-- A fraction is taken with all digits after it. -/
theorem length_le_splitFraction (ds : Digits) (after : List Char) :
    (Word.fractionText (some ds)).length ≤
      (splitFraction (Word.fractionText (some ds) ++ after)).1.length := by
  obtain ⟨d, cs, hchars⟩ := List.exists_cons_of_ne_nil ds.ne_nil
  have hlength := length_le_takeWhile ds after
  have hd := ds.digits d (by simp [hchars])
  rw [hchars, List.cons_append, List.takeWhile_cons_of_pos hd] at hlength
  simp only [Word.fractionText, hchars, List.cons_append, splitFraction, if_pos hd,
    List.length_cons] at hlength ⊢
  omega

/-- The whole part of a number ends where its fraction or its percent sign begins. -/
theorem takeWhile_whole (whole : Digits) (tail : List Char)
    (htail : tail.head? = some '.' ∨ tail.head? = some '%') :
    (whole.chars ++ tail).takeWhile isDigit = whole.chars ∧
      (whole.chars ++ tail).dropWhile isDigit = tail := by
  refine takeWhile_append_stop whole.digits fun c hc => ?_
  rw [hc, Option.some.injEq, Option.some.injEq] at htail
  rcases htail with rfl | rfl <;> decide

/-- Whatever follows a number, the scanner takes at least the number. -/
theorem length_le_splitNumber (negative : Bool) (whole : Digits) (fraction : Option Digits)
    (percent : Bool) (after : List Char) :
    (Word.number negative whole fraction percent).text.length ≤
      (splitNumber ((Word.number negative whole fraction percent).text ++ after)).1.raw.length := by
  simp only [Word.text, List.append_assoc, splitNumber, splitSign_number, List.length_append]
  cases percent with
  | true =>
      have hpercent : ∀ c, ('%' :: after).head? = some c → ¬ isDigit c ∧ c ≠ '.' := by
        intro c hc
        obtain rfl : '%' = c := by simpa using hc
        decide
      obtain ⟨htake, hdrop⟩ := takeWhile_whole whole (Word.fractionText fraction ++ ('%' :: after))
        (by cases fraction <;> simp [Word.fractionText])
      simp only [if_true, List.singleton_append, htake, hdrop,
        splitFraction_number fraction hpercent, splitPercent]
      exact Nat.le_refl _
  | false =>
      cases fraction with
      | none =>
          have hwhole := length_le_takeWhile whole after
          simp only [Word.fractionText, Bool.false_eq_true, if_false, List.nil_append,
            List.length_nil]
          omega
      | some ds =>
          have hfraction := length_le_splitFraction ds after
          obtain ⟨htake, hdrop⟩ := takeWhile_whole whole (Word.fractionText (some ds) ++ after)
            (by simp [Word.fractionText])
          simp only [Bool.false_eq_true, if_false, List.nil_append, List.length_nil, htake, hdrop]
          omega

theorem exists_splitSign (cs : List Char) :
    ∃ negative : Bool, (splitSign cs).1 = if negative then ['-'] else [] := by
  unfold splitSign
  split
  · exact ⟨true, rfl⟩
  · exact ⟨false, rfl⟩

theorem exists_splitPercent (cs : List Char) :
    ∃ percent : Bool, (splitPercent cs).1 = if percent then ['%'] else [] := by
  unfold splitPercent
  split
  · exact ⟨true, rfl⟩
  · exact ⟨false, rfl⟩

theorem exists_splitFraction (cs : List Char) :
    ∃ fraction : Option Digits, (splitFraction cs).1 = Word.fractionText fraction := by
  unfold splitFraction
  split
  · rename_i d rest
    by_cases hd : isDigit d
    · rw [if_pos hd]
      refine ⟨some ⟨d :: rest.takeWhile isDigit, List.cons_ne_nil _ _, ?_⟩, rfl⟩
      intro c hc
      rcases List.mem_cons.mp hc with rfl | hmem
      · exact hd
      · exact List.all_eq_true.mp List.all_takeWhile c hmem
    · rw [if_neg hd]
      exact ⟨none, rfl⟩
  · exact ⟨none, rfl⟩

/-- Behind the sign of a number there are digits. -/
theorem exists_digits {c : Char} {cs : List Char} (h : isDigit c ∨ c = '-' ∧ beginsWithDigit cs) :
    ∃ whole : Digits, (splitSign (c :: cs)).2.takeWhile isDigit = whole.chars := by
  have hdigit : ∃ d ds, (splitSign (c :: cs)).2 = d :: ds ∧ isDigit d := by
    rcases h with hc | ⟨rfl, hcs⟩
    · refine ⟨c, cs, ?_, hc⟩
      rw [splitSign]
      rintro rest heq
      obtain ⟨rfl, -⟩ := List.cons.inj heq
      exact absurd hc (by decide)
    · cases cs with
      | nil => cases hcs
      | cons d ds => exact ⟨d, ds, rfl, hcs⟩
  obtain ⟨d, ds, hsign, hd⟩ := hdigit
  refine ⟨⟨(splitSign (c :: cs)).2.takeWhile isDigit, ?_, fun _ =>
    List.all_eq_true.mp List.all_takeWhile _⟩, rfl⟩
  rw [hsign, List.takeWhile_cons_of_pos hd]
  exact List.cons_ne_nil _ _

/-- What the scanner takes for a number is one. -/
theorem splitNumber_eq_number {c : Char} {cs : List Char}
    (h : isDigit c ∨ c = '-' ∧ beginsWithDigit cs) :
    ∃ negative whole fraction percent,
      (splitNumber (c :: cs)).1.kind = (Word.number negative whole fraction percent).kind ∧
        (splitNumber (c :: cs)).1.text = (Word.number negative whole fraction percent).text := by
  obtain ⟨negative, hsign⟩ := exists_splitSign (c :: cs)
  obtain ⟨whole, hwhole⟩ := exists_digits h
  obtain ⟨fraction, hfraction⟩ := exists_splitFraction ((splitSign (c :: cs)).2.dropWhile isDigit)
  obtain ⟨percent, hpercent⟩ :=
    exists_splitPercent (splitFraction ((splitSign (c :: cs)).2.dropWhile isDigit)).2
  refine ⟨negative, whole, fraction, percent, ?_, ?_⟩
  · simp only [splitNumber, hfraction, hpercent]
    cases fraction <;> cases percent <;> rfl
  · simp only [splitNumber, hsign, hwhole, hfraction, hpercent, Word.text]

/-! ### Words at their places -/

/-- A number does not begin as an identifier does. -/
theorem not_isWordStart_of_number {c : Char} {cs : List Char}
    (h : isDigit c ∨ c = '-' ∧ beginsWithDigit cs) : ¬ isWordStart c := by
  rcases h with hdigit | ⟨rfl, -⟩
  · exact fun hstart => not_isDigit_of_isWordStart hstart hdigit
  · decide

theorem longest_splitNumber {c : Char} {cs : List Char}
    (h : isDigit c ∨ c = '-' ∧ beginsWithDigit cs) :
    Longest (splitNumber (c :: cs)).1.kind (splitNumber (c :: cs)).1.text (c :: cs) where
  matches_word := by
    obtain ⟨negative, whole, fraction, percent, hkind, htext⟩ := splitNumber_eq_number h
    rw [hkind, htext]
    exact matches_number negative whole fraction percent
  is_front := ⟨_, splitNumber_append (c :: cs)⟩
  length_le := by
    intro kind' word' hmatches hfront
    obtain ⟨after, hafter⟩ := hfront
    rcases hmatches.eq_text with
      ⟨first, rest, rfl, hfirst, -⟩ | ⟨negative, whole, fraction, percent, rfl⟩
    · obtain ⟨rfl, -⟩ := List.cons.inj hafter
      exact absurd hfirst (not_isWordStart_of_number h)
    · rw [← hafter]
      exact length_le_splitNumber negative whole fraction percent after

theorem longest_identifier {c : Char} {cs : List Char} (h : isWordStart c) :
    Longest .identifier (c :: cs.takeWhile isWordPart) (c :: cs) where
  matches_word := .identifier h fun _ => List.all_eq_true.mp List.all_takeWhile _
  is_front := ⟨cs.dropWhile isWordPart, by simp [List.takeWhile_append_dropWhile]⟩
  length_le := by
    intro kind' word' hmatches hfront
    obtain ⟨after, hafter⟩ := hfront
    rcases hmatches.eq_text with
      ⟨first, rest, rfl, -, hrest⟩ | ⟨negative, whole, fraction, percent, rfl⟩
    · obtain ⟨rfl, rfl⟩ := List.cons.inj hafter
      show rest.length + 1 ≤ ((rest ++ after).takeWhile isWordPart).length + 1
      rw [List.takeWhile_append_of_pos hrest, List.length_append]
      omega
    · obtain ⟨c', cs', happend, hnumber⟩ := text_number_append negative whole fraction percent after
      obtain ⟨rfl, rfl⟩ := List.cons.inj (happend.symm.trans hafter)
      exact absurd h (not_isWordStart_of_number hnumber)

/-! ### What is no token of any form -/

/-- The text of an invalid token, and the text that begins at its place. -/
inductive Refused : List Char → List Char → Prop
  /-- A comment that is never closed. -/
  | comment {body : List Char} (hopen : ¬ ['*', '/'] <:+: body) :
      Refused ['/', '*'] ('/' :: '*' :: body)
  /-- A string that is not closed, up to where its line or the source ends. -/
  | string {raw after : List Char} (hraw : Unclosed raw after)
      (hopen : ∀ raw' value after', Content raw' value → raw ++ after ≠ raw' ++ '"' :: after') :
      Refused ('"' :: raw) ('"' :: (raw ++ after))
  /-- A character that begins no gap and no token of any form; `isDigit_iff_between` and
  `isWordStart_iff` spell out which characters begin numbers and identifiers. -/
  | character {c : Char} {after : List Char} (hblank : ¬ isBlank c)
      (hcomment : c = '/' → after.head? ≠ some '/' ∧ after.head? ≠ some '*')
      (hmark : c ∉ punctuationMarks.map Prod.fst) (hquote : c ≠ '"') (hdigit : ¬ isDigit c)
      (hsign : c = '-' → ∀ d, after.head? = some d → ¬ isDigit d) (hword : ¬ isWordStart c) :
      Refused [c] (c :: after)

/-- A character that the scanner takes for itself begins nothing else. -/
theorem refused_character {c : Char} {after : List Char} (hgap : gapPiece? (c :: after) = none)
    (hcomment : ¬ beginsComment (c :: after)) (hpunctuation : punctuation? c = none)
    (hquote : c ≠ '"') (hdigit : ¬ isDigit c) (hsign : c = '-' → ¬ beginsWithDigit after)
    (hword : ¬ isWordStart c) : Refused [c] (c :: after) := by
  refine .character ?_ ?_ ?_ hquote hdigit ?_ hword
  · intro hblank
    rw [gapPiece?_of_isBlank hblank] at hgap
    cases hgap
  · rintro rfl
    constructor
    · intro hhead
      obtain ⟨rest, rfl⟩ := List.head?_eq_some_iff.mp hhead
      cases hgap
    · intro hhead
      obtain ⟨rest, rfl⟩ := List.head?_eq_some_iff.mp hhead
      exact hcomment rfl
  · intro hmem
    obtain ⟨mark, hmark, rfl⟩ := List.mem_map.mp hmem
    have hmarks : ∀ mark ∈ punctuationMarks, punctuation? mark.1 ≠ none := by decide
    exact hmarks mark hmark hpunctuation
  · rintro rfl d hd hdigit'
    obtain ⟨rest, rfl⟩ := List.head?_eq_some_iff.mp hd
    exact hsign rfl hdigit'

/-- A string that the scanner does not find closed is not. -/
theorem refused_string {cs : List Char} (h : ¬ (splitString cs).closed) :
    Refused ('"' :: (splitString cs).raw) ('"' :: cs) := by
  have happend := splitString_append cs
  have hrefused := Refused.string (unclosed_splitString h) fun raw' value after' hcontent heq =>
    h (closed_iff.mpr ⟨raw', value, after', hcontent, happend.symm.trans heq⟩)
  rwa [happend] at hrefused

/-- The kind of a punctuation mark is no class of words, and a mark is valid. -/
theorem punctuation?_kind {c : Char} {kind : TokenKind} (h : punctuation? c = some kind) :
    kind ∉ [.identifier, .integer, .number, .percentage] ∧ kind ≠ .invalid := by
  unfold punctuation? at h
  split at h <;> cases h <;> decide

/-- **Tokens are the longest words of the lexical grammar, and nothing else is refused.**  An
identifier, an integer, a decimal number or a percentage is the longest word, of whatever class,
that begins at its place.  A token is invalid only where a comment or a string begins that is not
closed, or at a character that begins nothing. -/
theorem tokenize_longest (source : String) {t : Token} (ht : t ∈ tokenize source) :
    ∃ before text, source.toList = before ++ text ∧ t.position = .behind before ∧
      (t.kind ∈ [.identifier, .integer, .number, .percentage] → Longest t.kind t.text.toList text) ∧
        (t.kind = .invalid → Refused t.text.toList text) := by
  obtain ⟨before, text, hsource, hposition, hstands⟩ := mem_tokenize ht
  refine ⟨before, text, hsource, hposition, ?_⟩
  cases hstands with
  | finish hend => simp [hend]
  | @lexeme _ c cs hgap hkind htext =>
      have htaken := taken_splitLexeme hgap
      rw [hkind, htext]
      generalize splitLexeme c cs = piece at htaken
      cases htaken with
      | comment hopen => exact ⟨by simp, fun _ => .comment hopen⟩
      | punctuation hc =>
          obtain ⟨hword, hvalid⟩ := punctuation?_kind hc
          exact ⟨fun hmem => absurd hmem hword, fun hinvalid => absurd hinvalid hvalid⟩
      | number hc =>
          refine ⟨fun _ => longest_splitNumber hc, fun hinvalid => ?_⟩
          have hmatches := (longest_splitNumber hc).matches_word
          rw [hinvalid] at hmatches
          cases hmatches
      | word hc => exact ⟨fun _ => longest_identifier hc, by simp⟩
      | character hcomment hpunctuation hquote hdigit hsign hword =>
          exact ⟨by simp, fun _ =>
            refused_character hgap hcomment hpunctuation hquote hdigit hsign hword⟩
      | string =>
          unfold StringBody.lexeme
          by_cases hclosed : (splitString cs).closed
          · rw [if_pos hclosed]
            exact ⟨by simp, by simp⟩
          · rw [if_neg hclosed]
            exact ⟨by simp, fun _ => refused_string hclosed⟩

/-- In `7.%` a point without digits follows the number, so neither the point nor the percent sign
belongs to it. -/
theorem tokenize_longest_glued :
    ⟨.integer, "7", ⟨1, 1⟩⟩ ∈ tokenize "7.%" ∧ ⟨.invalid, "%", ⟨1, 3⟩⟩ ∈ tokenize "7.%" ∧
      (∃ before text, "7.%".toList = before ++ text ∧ ⟨1, 1⟩ = Position.behind before ∧
        Longest .integer ['7'] text) ∧
      ∃ before text, "7.%".toList = before ++ text ∧ ⟨1, 3⟩ = Position.behind before ∧
        Refused ['%'] text := by
  have hinteger : ⟨.integer, "7", ⟨1, 1⟩⟩ ∈ tokenize "7.%" := by decide +kernel
  have hinvalid : ⟨.invalid, "%", ⟨1, 3⟩⟩ ∈ tokenize "7.%" := by decide +kernel
  obtain ⟨before, text, hsource, hposition, hlongest, -⟩ := tokenize_longest _ hinteger
  obtain ⟨before', text', hsource', hposition', -, hrefused⟩ := tokenize_longest _ hinvalid
  exact ⟨hinteger, hinvalid, ⟨before, text, hsource, hposition, hlongest (by decide)⟩,
    before', text', hsource', hposition', hrefused rfl⟩

end WidgetLayout
