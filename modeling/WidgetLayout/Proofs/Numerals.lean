/-
Every number of a source can be read, and an integer by its range.

A number token is what the scanner takes for a number: a sign, digits, a fraction and a percent
sign, of which only the digits must be there (`exists_number_of_mem`).  Read as a single-precision
number, with its percent sign taken off, it never fails, however many digits it has.  Read as an
unsigned number it fails with a sign in front, and else exactly from 2³² on; zeros in front change
nothing (`readUInt32_integer`).
-/
import Mathlib.Data.List.TakeWhile
import WidgetLayout.Proofs.ErrorPlaces
import WidgetLayout.Proofs.Listing
import WidgetLayout.Proofs.LongestMatch

namespace WidgetLayout

open WidgetLayout.Text (isDigit)

/-- The number that decimal digits stand for. -/
def Digits.value (ds : Digits) : Nat := Nat.ofDigitChars 10 ds.chars 0

/-- The digits of a fraction, if there is one. -/
def Word.fractionDigits : Option Digits → List Char
  | some ds => ds.chars
  | none => []

/-! ### Integers

Digits are read from the left, and a number that has become too large stays so. -/

/-- Once the digits stand for too much, no more digits help. -/
theorem readDigits_eq_error {cs : List Char} {n : Nat} (hcs : ∀ c ∈ cs, isDigit c)
    (hn : n < 0x100000000) (hle : 0x100000000 ≤ Nat.ofDigitChars 10 cs n) :
    Text.readDigits n cs = .error .overflow := by
  induction cs generalizing n with
  | nil => exact absurd hle (Nat.not_le.mpr hn)
  | cons c cs ih =>
      obtain ⟨hc, hcs⟩ := List.forall_mem_cons.mp hcs
      have hvalue : n * 10 + Text.digitValue c = 10 * n + (c.toNat - '0'.toNat) := by
        rw [Text.digitValue, Nat.mul_comm]
      rw [Nat.ofDigitChars_cons, ← hvalue] at hle
      rw [Text.readDigits, if_pos hc]
      by_cases hlt : n * 10 + Text.digitValue c < 0x100000000
      · rw [if_pos hlt]
        exact ih hcs hlt hle
      · rw [if_neg hlt]

/-- A text that does not begin with a plus sign is read digit by digit. -/
theorem readUInt32_cons {c : Char} (hc : c ≠ '+') (cs : List Char) :
    Text.readUInt32 (c :: cs) = UInt32.ofNat <$> Text.readDigits 0 (c :: cs) := by
  rw [Text.readUInt32]
  · exact List.cons_ne_nil c cs
  · intro heq
    exact hc (List.cons.inj heq).1
  · intro cs' heq
    exact hc (List.cons.inj heq).1

/-- **An integer is read if and only if it has no sign and is less than 2³².** -/
theorem readUInt32_integer (negative : Bool) (ds : Digits) :
    Text.readUInt32 ((if negative then ['-'] else []) ++ ds.chars) =
      if negative then .error .digit
      else if ds.value < 0x100000000 then .ok (UInt32.ofNat ds.value)
      else .error .overflow := by
  cases negative with
  | true => exact readUInt32_cons (by decide) ds.chars
  | false =>
      obtain ⟨d, cs, hchars⟩ := List.exists_cons_of_ne_nil ds.ne_nil
      have hplus : d ≠ '+' := by
        have hd := ds.digits d (by simp [hchars])
        rintro rfl
        exact absurd hd (by decide)
      have hread := readUInt32_cons hplus cs
      rw [← hchars] at hread
      simp only [Bool.false_eq_true, if_false, List.nil_append]
      rw [hread]
      by_cases hlt : ds.value < 0x100000000
      · rw [if_pos hlt, readDigits_eq_ok ds.digits hlt]
        rfl
      · rw [if_neg hlt, readDigits_eq_error ds.digits (by decide) (Nat.not_lt.mp hlt)]
        rfl

/-! ### Single-precision numbers -/

/-- The digits of a number without its sign, and how many of them stand behind the point. -/
theorem readMagnitude_number (whole : Digits) (fraction : Option Digits) :
    Single.readMagnitude (whole.chars ++ Word.fractionText fraction) =
      some (Single.digitsValue (whole.chars ++ Word.fractionDigits fraction),
        0 - ((Word.fractionDigits fraction).length : Int)) := by
  have hstop : ∀ c, (Word.fractionText fraction).head? = some c → ¬ isDigit c := by
    intro c hc
    cases fraction with
    | none => cases hc
    | some ds =>
        obtain rfl := Option.some.inj hc
        decide
  obtain ⟨htake, hdrop⟩ := takeWhile_append_stop whole.digits hstop
  simp only [Single.readMagnitude, htake, hdrop]
  cases fraction with
  | none => simp [Word.fractionText, Word.fractionDigits, whole.ne_nil, Single.readExponent]
  | some ds =>
      have htake' : ds.chars.takeWhile isDigit = ds.chars :=
        List.takeWhile_eq_self_iff.mpr ds.digits
      have hdrop' : ds.chars.dropWhile isDigit = [] := List.dropWhile_eq_nil_iff.mpr ds.digits
      simp [Word.fractionText, Word.fractionDigits, whole.ne_nil, htake', hdrop',
        Single.readExponent]

theorem readUnsigned_number (negative : Bool) (whole : Digits) (fraction : Option Digits) :
    ∃ x, Single.readUnsigned negative (whole.chars ++ Word.fractionText fraction) = some x := by
  unfold Single.readUnsigned
  rw [readMagnitude_number]
  exact ⟨_, rfl⟩

/-- **A number is read whatever its sign and its digits are.** -/
theorem read_number (negative : Bool) (whole : Digits) (fraction : Option Digits) :
    ∃ x, Single.read (Word.number negative whole fraction false).text = .ok x := by
  obtain ⟨x, hx⟩ := readUnsigned_number negative whole fraction
  refine ⟨x, ?_⟩
  have htext : (Word.number negative whole fraction false).text =
      (if negative then ['-'] else []) ++ (whole.chars ++ Word.fractionText fraction) := by
    simp [Word.text]
  rw [htext]
  cases negative with
  | true => simp [Single.read, hx]
  | false =>
      obtain ⟨d, cs, hchars⟩ := List.exists_cons_of_ne_nil whole.ne_nil
      have hd := whole.digits d (by simp [hchars])
      have hminus : d ≠ '-' := by
        rintro rfl
        exact absurd hd (by decide)
      have hplus : d ≠ '+' := by
        rintro rfl
        exact absurd hd (by decide)
      rw [hchars, List.cons_append] at hx ⊢
      simp [Single.read, hminus, hplus, hx]

theorem percent_not_mem_number (negative : Bool) (whole : Digits) (fraction : Option Digits) :
    '%' ∉ (Word.number negative whole fraction false).text := by
  have hdigits : ∀ ds : Digits, '%' ∉ ds.chars := by
    intro ds hmem
    exact absurd (ds.digits _ hmem) (by decide)
  have hwhole := hdigits whole
  cases fraction with
  | none => cases negative <;> simpa [Word.text, Word.fractionText] using hwhole
  | some ds =>
      have hfraction := hdigits ds
      cases negative <;> simpa [Word.text, Word.fractionText] using ⟨hwhole, hfraction⟩

/-- Of a percentage only its percent sign is taken off. -/
theorem withoutPercent_number (negative : Bool) (whole : Digits) (fraction : Option Digits) :
    Literal.withoutPercent (Word.number negative whole fraction true).text =
      (Word.number negative whole fraction false).text := by
  have htext : (Word.number negative whole fraction true).text =
      (Word.number negative whole fraction false).text ++ ['%'] := by
    simp [Word.text]
  have hpercent := percent_not_mem_number negative whole fraction
  rw [Literal.withoutPercent, htext, List.reverse_append, List.reverse_singleton,
    List.singleton_append, List.dropWhile_cons_of_pos (by decide)]
  generalize (Word.number negative whole fraction false).text = text at hpercent
  rw [List.reverse_eq_iff]
  cases hreverse : text.reverse with
  | nil => rfl
  | cons c cs =>
      have hc : c ≠ '%' := by
        rintro rfl
        exact hpercent (List.mem_reverse.mp (by rw [hreverse]; exact List.mem_cons_self))
      exact List.dropWhile_cons_of_neg (by simpa using hc)

/-! ### Tokens

The numbers of a source are words of the grammar, so none of them has a text that is no number. -/

/-- A token of one of the kinds of numbers is a number. -/
theorem exists_number_of_mem {source : String} {t : Token} (ht : t ∈ tokenize source)
    (hkind : t.kind ∈ [.integer, .number, .percentage]) :
    ∃ negative whole fraction percent, t.kind = (Word.number negative whole fraction percent).kind ∧
      t.text.toList = (Word.number negative whole fraction percent).text := by
  obtain ⟨before, text, -, -, hstands⟩ := mem_tokenize ht
  cases hstands with
  | finish hend => simp [hend] at hkind
  | @lexeme _ c cs hgap hkind' htext =>
      have htaken := taken_splitLexeme hgap
      rw [hkind'] at hkind
      rw [hkind', htext]
      generalize splitLexeme c cs = piece at htaken hkind
      cases htaken with
      | number hc => exact splitNumber_eq_number hc
      | punctuation hc =>
          have hnot := (punctuation?_kind hc).1
          simp only [List.mem_cons, List.not_mem_nil, or_false] at hkind hnot
          exact absurd (.inr hkind) hnot
      | string =>
          unfold StringBody.lexeme at hkind
          by_cases hclosed : (splitString cs).closed
          · simp [hclosed] at hkind
          · simp [hclosed] at hkind
      | comment | word | character => simp at hkind

theorem exists_digits_of_mem {source : String} {t : Token} (ht : t ∈ tokenize source)
    (hkind : t.kind = .integer) :
    ∃ (negative : Bool) (ds : Digits),
      t.text.toList = (if negative then ['-'] else []) ++ ds.chars := by
  obtain ⟨negative, whole, fraction, percent, hkind', htext⟩ :=
    exists_number_of_mem ht (by simp [hkind])
  rw [hkind] at hkind'
  cases percent with
  | true => cases hkind'
  | false =>
      cases fraction with
      | some ds => cases hkind'
      | none => exact ⟨negative, whole, by simpa [Word.text, Word.fractionText] using htext⟩

/-- What is read of a number token as a single-precision number can be read. -/
theorem read_of_mem {source : String} {t : Token} (ht : t ∈ tokenize source) {digits : List Char}
    (hdigits : t.kind ∈ [.integer, .number] ∧ digits = t.text.toList ∨
      t.kind = .percentage ∧ digits = Literal.withoutPercent t.text.toList) :
    ∃ x, Single.read digits = .ok x := by
  have hkind : t.kind ∈ [.integer, .number, .percentage] := by
    rcases hdigits with ⟨hmem, -⟩ | ⟨hpercent, -⟩
    · simp only [List.mem_cons, List.not_mem_nil, or_false] at hmem ⊢
      exact hmem.elim .inl fun h => .inr (.inl h)
    · simp [hpercent]
  obtain ⟨negative, whole, fraction, percent, hkind', htext⟩ := exists_number_of_mem ht hkind
  have hread := read_number negative whole fraction
  rcases hdigits with ⟨hmem, rfl⟩ | ⟨hpercent, rfl⟩
  · cases percent with
    | true => simp [hkind', Word.kind] at hmem
    | false => rwa [htext]
  · cases percent with
    | true => rwa [htext, withoutPercent_number]
    | false =>
        rw [hpercent] at hkind'
        cases fraction <;> cases hkind'

/-- So no token of a source has that fault. -/
theorem not_number_fault {source : String} {t : Token} (ht : t ∈ tokenize source) {text : String}
    {fault : Single.TextFault} : ¬ ValueFault.Of t (.number text fault) := by
  intro h
  cases h with
  | number hdigits herror =>
      obtain ⟨x, hx⟩ := read_of_mem ht hdigits
      rw [hx] at herror
      cases herror

end WidgetLayout
