/-
A lexer cuts a source into tokens, one at a time, and may hold one token that was looked at.

`next` hands out the token that is held or else scans one; at the end of the source that is a token
of kind `endOfFile`.  As a token source a lexer ends there: `take` gives no token then and goes on
holding the end, so that asking again changes nothing.
-/
import WidgetLayout.Token.Lexeme
import WidgetLayout.Token.Source

namespace WidgetLayout

/-- A source that is being cut into tokens. -/
structure Lexer where
  /-- What has not been scanned. -/
  rest : List Char
  /-- Where `rest` begins. -/
  cursor : Position
  /-- A token that was scanned and not yet handed out. -/
  lookahead : Option Token

namespace Lexer

/-- The lexer at the start of a source. -/
def ofSource (source : String) : Lexer := ⟨source.toList, .start, none⟩

/-- The token that begins a text standing at `start`, with what follows it and where that stands. -/
def tokenAt (start : Position) : List Char → Token × List Char × Position
  | [] => (⟨.endOfFile, "", start⟩, [], start)
  | c :: cs =>
    let piece := splitLexeme c cs
    (⟨piece.1.kind, String.ofList piece.1.text, start⟩, piece.2, start.after piece.1.raw)

/-- Scans one token past the gap before it. -/
def scan (l : Lexer) : Token × Lexer :=
  let gap := splitGap l.rest
  let piece := tokenAt (l.cursor.after gap.1) gap.2
  (piece.1, { l with rest := piece.2.1, cursor := piece.2.2 })

/-- Hands out the next token, which may be the end. -/
def next (l : Lexer) : Token × Lexer :=
  match l.lookahead with
  | some t => (t, { l with lookahead := none })
  | none => l.scan

/-- The next token, left in place; none at the end. -/
def peek (l : Lexer) : Option Token × Lexer :=
  let t := l.next.1
  (if t.kind = .endOfFile then none else some t, { l.next.2 with lookahead := some t })

/-- The next token, taken; none at the end, which is then held. -/
def take (l : Lexer) : Option Token × Lexer :=
  let t := l.next.1
  if t.kind = .endOfFile then (none, { l.next.2 with lookahead := some t }) else (some t, l.next.2)

/-- Where the next token begins if it has been looked at, else where scanning goes on. -/
def position (l : Lexer) : Position :=
  match l.lookahead with
  | some t => t.position
  | none => l.cursor

/-- A bound on the number of tokens before the end. -/
def size (l : Lexer) : Nat :=
  l.rest.length + match l.lookahead with
    | some t => if t.kind = .endOfFile then 0 else 1
    | none => 0

theorem length_tokenAt_le (start : Position) (cs : List Char) :
    (tokenAt start cs).2.1.length ≤ cs.length := by
  cases cs with
  | nil => simp [tokenAt]
  | cons c cs => exact Nat.le_of_lt (splitLexeme_length_lt c cs)

theorem length_tokenAt_lt (start : Position) (cs : List Char)
    (h : (tokenAt start cs).1.kind ≠ .endOfFile) : (tokenAt start cs).2.1.length < cs.length := by
  cases cs with
  | nil => simp [tokenAt] at h
  | cons c cs => exact splitLexeme_length_lt c cs

theorem size_scan_le (l : Lexer) (h : l.lookahead = none) : l.scan.2.size ≤ l.size := by
  have happ := congrArg List.length (splitGap_append l.rest)
  have hle := length_tokenAt_le (l.cursor.after (splitGap l.rest).1) (splitGap l.rest).2
  rw [List.length_append] at happ
  simp only [scan, size, h]
  omega

theorem size_scan_lt (l : Lexer) (h : l.lookahead = none) (hk : l.scan.1.kind ≠ .endOfFile) :
    l.scan.2.size < l.size := by
  have happ := congrArg List.length (splitGap_append l.rest)
  have hlt := length_tokenAt_lt (l.cursor.after (splitGap l.rest).1) (splitGap l.rest).2 hk
  rw [List.length_append] at happ
  simp only [scan, size, h]
  omega

theorem lookahead_next (l : Lexer) : l.next.2.lookahead = none := by
  unfold next
  split
  · rfl
  · rename_i h
    exact h

theorem size_next_le (l : Lexer) : l.next.2.size ≤ l.size := by
  unfold next
  split
  · rename_i h
    simp [size, h]
  · exact size_scan_le l ‹_›

/-- Handing out a token other than the end brings the end nearer. -/
theorem size_next_lt (l : Lexer) (hk : l.next.1.kind ≠ .endOfFile) : l.next.2.size < l.size := by
  unfold next at hk ⊢
  split
  · rename_i t h
    simp only [h] at hk
    simp [size, h, hk]
  · rename_i h
    simp only [h] at hk
    exact size_scan_lt l h hk

theorem size_peek_le (l : Lexer) : l.peek.2.size ≤ l.size := by
  have hn := lookahead_next l
  have hle := size_next_le l
  by_cases hk : l.next.1.kind = .endOfFile
  · simp only [peek, size, hk, hn] at hle ⊢
    simpa using hle
  · have hlt := size_next_lt l hk
    simp only [peek, size, hk, hn] at hlt ⊢
    simp only [if_false]
    omega

theorem size_take_le (l : Lexer) : l.take.2.size ≤ l.size := by
  have hn := lookahead_next l
  have hle := size_next_le l
  by_cases hk : l.next.1.kind = .endOfFile
  · simp only [take, hk, if_true, size, hn] at hle ⊢
    omega
  · simp only [take, hk, if_false]
    exact hle

theorem size_take_lt (l : Lexer) (t : Token) (h : l.take.1 = some t) : l.take.2.size < l.size := by
  by_cases hk : l.next.1.kind = .endOfFile
  · simp [take, hk] at h
  · simp only [take, hk, if_false]
    exact size_next_lt l hk

instance : TokenSource Lexer where
  peek := peek
  take := take
  position := position
  size := size
  size_peek_le := size_peek_le
  size_take_le := size_take_le
  size_take_lt := size_take_lt

/-- Hands out every token up to and with the end. -/
def tokens (l : Lexer) : List Token × Lexer :=
  match _h : l.next with
  | (t, l') =>
    if _hk : t.kind = .endOfFile then ([t], l')
    else
      let (ts, l'') := tokens l'
      (t :: ts, l'')
termination_by l.size
decreasing_by
  have := size_next_lt l (by rw [_h]; exact _hk)
  rw [_h] at this
  exact this

end Lexer

/-- The tokens of a source, the end included. -/
def tokenize (source : String) : List Token := (Lexer.ofSource source).tokens.1

end WidgetLayout
