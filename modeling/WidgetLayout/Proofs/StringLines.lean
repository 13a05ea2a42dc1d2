/-
How strings end, and on which lines.

A string ends with the first quote that is not escaped.  It is left unclosed where a line ends
before that, or the source does (`Unclosed`).  But a line end right behind a backslash counts as
escaped, so a string can go on in the next line: `tokenize_string_lines` says that this is the only
way, and `string_over_two_lines` that it is one.
-/
import WidgetLayout.Proofs.TokenPlaces

namespace WidgetLayout

/-! ### Reading the content of a string -/

/-- What has been read of a string is read again in front of any other text. -/
theorem splitString_content {raw value : List Char} (h : Content raw value) (rest : List Char) :
    splitString (raw ++ rest) = (splitString rest).cons value raw := by
  induction h with
  | nil => rfl
  | @plain c raw value hc _ ih =>
      simp only [List.mem_cons, List.not_mem_nil, or_false, not_or] at hc
      obtain ⟨hquote, hbackslash, hnewline, hreturn⟩ := hc
      rw [List.cons_append, splitString, ih]
      · rfl
      · exact hquote
      · exact hnewline
      · exact hreturn
      · exact fun heq _ => hbackslash heq
      · exact fun _ _ heq _ => hbackslash heq
  | @escape c raw value _ ih =>
      rw [List.cons_append, List.cons_append, splitString, ih]
      simp [StringBody.cons]

/-- Whether a character ends a line. -/
def isLineEnd (c : Char) : Bool := c = '\n' || c = '\r'

/-- The characters of a string that is not closed, without its opening quote, and the text after
them. -/
inductive Unclosed : List Char → List Char → Prop
  | finish {raw value : List Char} (h : Content raw value) : Unclosed raw []
  | backslash {raw value : List Char} (h : Content raw value) : Unclosed (raw ++ ['\\']) []
  | line {raw value after : List Char} {c : Char} (h : Content raw value) (hc : isLineEnd c) :
      Unclosed raw (c :: after)

/-- What goes before the content of a string goes before what is left unclosed. -/
theorem Unclosed.append {front raw after : List Char}
    (hfront : ∀ {raw value}, Content raw value → ∃ value', Content (front ++ raw) value')
    (h : Unclosed raw after) : Unclosed (front ++ raw) after := by
  cases h with
  | finish h =>
      obtain ⟨value', h'⟩ := hfront h
      exact .finish h'
  | @backslash raw _ h =>
      obtain ⟨value', h'⟩ := hfront h
      rw [← List.append_assoc]
      exact .backslash h'
  | line h hc =>
      obtain ⟨value', h'⟩ := hfront h
      exact .line h' hc

theorem unclosed_splitString {cs : List Char} (h : ¬ (splitString cs).closed) :
    Unclosed (splitString cs).raw (splitString cs).rest := by
  induction cs using splitString.induct with
  | case1 => exact .finish .nil
  | case2 rest => exact absurd rfl h
  | case3 rest => exact .line .nil rfl
  | case4 rest => exact .line .nil rfl
  | case5 => exact .backslash .nil
  | case6 c rest ih =>
      rw [splitString] at h ⊢
      exact (ih h).append fun hcontent => ⟨_, .escape hcontent⟩
  | case7 c rest hquote hnewline hreturn hlast hescape ih =>
      have hbackslash : c ≠ '\\' := by
        intro hc
        cases rest with
        | nil => exact hlast hc rfl
        | cons d ds => exact hescape d ds hc rfl
      rw [splitString] at h ⊢
      · refine (ih h).append fun hcontent => ⟨_, .plain ?_ hcontent⟩
        simpa using ⟨hquote, hbackslash, hnewline, hreturn⟩
      all_goals assumption

/-- A string is read up to a line end that is not escaped, and is then invalid. -/
theorem lexeme_splitString_line {raw value after : List Char} {c : Char} (h : Content raw value)
    (hc : isLineEnd c) :
    (splitString (raw ++ c :: after)).lexeme =
      (⟨.invalid, '"' :: raw, '"' :: raw⟩, c :: after) := by
  have hend : splitString (c :: after) = ⟨[], [], false, c :: after⟩ := by
    rcases (by simpa [isLineEnd] using hc : c = '\n' ∨ c = '\r') with rfl | rfl <;> rfl
  rw [splitString_content h, hend]
  simp [StringBody.cons, StringBody.lexeme]

/-- A string is not closed exactly if no quote that is not escaped follows before the line or the
source ends. -/
theorem closed_iff {cs : List Char} :
    (splitString cs).closed ↔ ∃ raw value after, Content raw value ∧ cs = raw ++ '"' :: after := by
  constructor
  · intro h
    obtain ⟨raw, hraw, hcontent⟩ := content_splitString h
    refine ⟨raw, _, (splitString cs).rest, hcontent, ?_⟩
    have happend := splitString_append cs
    rw [hraw, List.append_assoc] at happend
    exact happend.symm
  · intro h
    obtain ⟨raw, value, after, hcontent, rfl⟩ := h
    rw [splitString_content hcontent]
    rfl

/-! ### Line ends in strings

A backslash escapes what follows it unless it is escaped itself, so it counts whether their number
is odd. -/

/-- The number of backslashes that a text ends with. -/
def backslashesAtEnd (cs : List Char) : Nat := (cs.reverse.takeWhile (· = '\\')).length

/-- In front of what a text ends with, other characters do not count. -/
theorem backslashesAtEnd_append (front cs : List Char) :
    backslashesAtEnd (front ++ cs) =
      backslashesAtEnd cs + if backslashesAtEnd cs = cs.length then
        backslashesAtEnd front else 0 := by
  unfold backslashesAtEnd
  rw [List.reverse_append, List.takeWhile_append, List.length_reverse]
  split
  · rename_i hall
    rw [List.length_append, List.length_reverse, hall]
  · rfl

/-- A line end in a string is escaped: an odd number of backslashes stands before it. -/
theorem Content.escaped_lineEnd {raw value front back : List Char} {c : Char}
    (h : Content raw value) (hraw : raw = front ++ c :: back) (hc : isLineEnd c) :
    backslashesAtEnd front % 2 = 1 := by
  induction h generalizing front with
  | nil => cases front <;> cases hraw
  | @plain d raw value hd _ ih =>
      cases front with
      | nil =>
          obtain ⟨rfl, -⟩ := List.cons.inj hraw
          simp [isLineEnd] at hc
          simp [hc] at hd
      | cons d' front =>
          obtain ⟨rfl, htail⟩ := List.cons.inj hraw
          have hodd := ih htail
          have hone : backslashesAtEnd [d] = 0 := by
            simp only [List.mem_cons, not_or] at hd
            simp [backslashesAtEnd, hd]
          rw [← List.singleton_append, backslashesAtEnd_append, hone]
          simpa using hodd
  | @escape d raw value _ ih =>
      cases front with
      | nil =>
          obtain ⟨rfl, -⟩ := List.cons.inj hraw
          cases hc
      | cons b front =>
      obtain ⟨rfl, htail⟩ := List.cons.inj hraw
      cases front with
      | nil => rfl
      | cons d' front =>
          obtain ⟨rfl, hrest⟩ := List.cons.inj htail
          have hodd := ih hrest
          have heven : backslashesAtEnd ['\\', d] % 2 = 0 := by
            by_cases hd : d = '\\'
            · simp [backslashesAtEnd, hd]
            · simp [backslashesAtEnd, hd]
          have hfront : '\\' :: d :: front = ['\\', d] ++ front := rfl
          rw [hfront, backslashesAtEnd_append]
          split <;> omega

/-- The lexeme of a string token has the content of the string between two quotes. -/
theorem StandsBefore.of_string {text : List Char} {t : Token} (h : StandsBefore text t)
    (hkind : t.kind = .string) :
    ∃ raw after, text = '"' :: (raw ++ '"' :: after) ∧ Content raw t.text.toList := by
  cases h with
  | finish hend => cases hend.symm.trans hkind
  | @lexeme _ c cs hgap hlexeme htext =>
      have htaken := taken_splitLexeme hgap
      rw [hlexeme] at hkind
      rw [htext]
      generalize splitLexeme c cs = piece at htaken hkind
      cases htaken with
      | comment => cases hkind
      | punctuation hc => exact absurd (List.mem_cons.mpr (.inl hkind)) (punctuation?_not_mem hc)
      | number => exact absurd (List.mem_cons.mpr (.inl hkind)) (numberKind_not_mem _ _)
      | word => cases hkind
      | character => cases hkind
      | string =>
          unfold StringBody.lexeme at hkind ⊢
          by_cases hclosed : (splitString cs).closed
          · rw [if_pos hclosed]
            obtain ⟨raw, hraw, hcontent⟩ := content_splitString hclosed
            have happend := splitString_append cs
            rw [hraw, List.append_assoc] at happend
            exact ⟨raw, _, by rw [← happend]; rfl, hcontent⟩
          · rw [if_neg hclosed] at hkind
            cases hkind

/-- **A string goes on in the next line only behind a backslash.**  Every line end between the
quotes of a string has an odd number of backslashes right before it, so the last of them escapes it.
Where a line ends otherwise before a string is closed, the string is invalid, and its token is the
text up to there. -/
theorem tokenize_string_lines (source : String) {t : Token} (ht : t ∈ tokenize source) :
    (t.kind = .string →
        ∃ before raw after, source.toList = before ++ '"' :: (raw ++ '"' :: after) ∧
          t.position = .behind before ∧ Content raw t.text.toList ∧
            ∀ front c back, raw = front ++ c :: back → isLineEnd c →
              backslashesAtEnd front % 2 = 1) ∧
      ∀ before raw value c after, source.toList = before ++ '"' :: (raw ++ c :: after) →
        t.position = .behind before → Content raw value → isLineEnd c →
          t.kind = .invalid ∧ t.text.toList = '"' :: raw := by
  constructor
  · intro hkind
    obtain ⟨before, text, hsource, hposition, hstands⟩ := mem_tokenize ht
    obtain ⟨raw, after, rfl, hcontent⟩ := hstands.of_string hkind
    refine ⟨before, raw, after, hsource, hposition, hcontent, ?_⟩
    intro front c back hraw hc
    exact hcontent.escaped_lineEnd hraw hc
  · intro before raw value c after hsource hposition hcontent hc
    have hlexeme : splitLexeme '"' (raw ++ c :: after) = (splitString (raw ++ c :: after)).lexeme :=
      rfl
    rw [lexeme_splitString_line hcontent hc] at hlexeme
    cases standsBefore_of_mem ht hsource hposition with
    | lexeme _ hkind htext =>
        rw [hlexeme] at hkind htext
        exact ⟨hkind, htext⟩

/-- The first string has a line end behind a backslash and is one token; the second has one behind
none. -/
theorem tokenize_string_lines_broken :
    (∃ t ∈ tokenize "\"a\\\nb\"\"c\n", t.kind = .string ∧
        ∃ before raw after, "\"a\\\nb\"\"c\n".toList = before ++ '"' :: (raw ++ '"' :: after) ∧
          t.position = .behind before ∧ Content raw t.text.toList ∧
            ∀ front c back, raw = front ++ c :: back → isLineEnd c →
              backslashesAtEnd front % 2 = 1) ∧
      ∃ t ∈ tokenize "\"a\\\nb\"\"c\n", t.position = ⟨2, 3⟩ ∧ t.kind = .invalid ∧
      t.text.toList = ['"', 'c'] := by
  have hstring : ⟨.string, "a\\\nb", ⟨1, 1⟩⟩ ∈ tokenize "\"a\\\nb\"\"c\n" := by decide +kernel
  have hinvalid : ⟨.invalid, "\"c", ⟨2, 3⟩⟩ ∈ tokenize "\"a\\\nb\"\"c\n" := by decide +kernel
  refine ⟨⟨_, hstring, rfl, (tokenize_string_lines _ hstring).1 rfl⟩, _, hinvalid, rfl, ?_⟩
  exact (tokenize_string_lines _ hinvalid).2 ['"', 'a', '\\', '\n', 'b', '"'] ['c']
    ['c'] '\n' [] rfl rfl (.plain (by decide) .nil) rfl

/-- Not every string ends on the line on which it begins. -/
theorem string_over_two_lines :
    ¬ ∀ source : String, ∀ t ∈ tokenize source, t.kind = .string →
      ∀ before raw after, source.toList = before ++ '"' :: (raw ++ '"' :: after) →
        t.position = .behind before → Content raw t.text.toList → ∀ c ∈ raw, ¬ isLineEnd c := by
  intro h
  have htoken : ⟨.string, "a\\\nb", ⟨1, 1⟩⟩ ∈ tokenize "\"a\\\nb\"" := by decide +kernel
  have hcontent : Content ['a', '\\', '\n', 'b'] ['a', '\\', '\n', 'b'] :=
    .plain (by decide) (.escape (.plain (by decide) .nil))
  exact h _ _ htoken rfl [] ['a', '\\', '\n', 'b'] [] rfl rfl hcontent '\n' (by simp) rfl

end WidgetLayout
