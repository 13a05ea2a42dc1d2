/-
Readers: actions that read a text from its beginning and may refuse it.

What is left of the text is the state.  No reader puts characters back, and `next` takes one, so a
reader that takes a character in every round comes to an end.
-/
import WidgetLayout.Progress

namespace WidgetLayout.Text

open WidgetLayout.Progress

/-- An action that reads characters. -/
abbrev Reader := EStateM Unit (List Char)

/-- A text is worked off character by character. -/
instance : Measured (List Char) := ⟨List.length⟩

namespace Reader

/-- Refuses the text. -/
def fail {α : Type} : Reader α := throw ()

/-- The next character, left in place. -/
def peek : Reader (Option Char) := fun cs => .ok cs.head? cs

/-- Whether the text goes on with `word`. -/
def startsWith (word : List Char) : Reader Bool := fun cs => .ok (word.isPrefixOf cs) cs

/-- Takes the next character. -/
def next : Reader Char := fun cs =>
  match cs with
  | [] => .error () []
  | c :: cs => .ok c cs

/-- Takes the next character, which must be `c`. -/
def expect (c : Char) : Reader Unit := do
  let d ← next
  if d = c then return () else fail

/-- Takes characters as long as they are of a class. -/
def takeWhile (class? : Char → Bool) : Reader (List Char) := fun cs =>
  .ok (cs.takeWhile class?) (cs.dropWhile class?)

/-- Passes over `n` characters. -/
def skip (n : Nat) : Reader Unit := fun cs => .ok () (cs.drop n)

/-- Takes a value that may be missing. -/
def ofOption {α : Type} : Option α → Reader α
  | some a => pure a
  | none => fail

/-- The result of reading a whole text. -/
def run? {α : Type} (m : Reader α) (cs : List Char) : Option α :=
  match m cs with
  | .ok a [] => some a
  | _ => none

theorem keeps_fail {α : Type} : Keeps (fail : Reader α) := keeps_throw _

theorem keeps_peek : Keeps peek := fun _ => Nat.le_refl _

theorem keeps_startsWith (word : List Char) : Keeps (startsWith word) := fun _ => Nat.le_refl _

theorem shrinks_next : Shrinks next := by
  constructor
  · intro cs
    cases cs <;> simp [next, left, Measured.size]
  · intro cs c cs' h
    cases cs with
    | nil => simp [next] at h
    | cons d ds =>
        simp only [next, EStateM.Result.ok.injEq] at h
        simp [Measured.size, h.2]

theorem keeps_next : Keeps next := shrinks_next.1

theorem shrinks_expect (c : Char) : Shrinks (expect c) := by
  refine shrinks_bind shrinks_next fun d => ?_
  split
  · exact keeps_pure _
  · exact keeps_fail

theorem keeps_takeWhile (class? : Char → Bool) : Keeps (takeWhile class?) := by
  intro cs
  exact (List.dropWhile_suffix class?).length_le

theorem keeps_skip (n : Nat) : Keeps (skip n) := by
  intro cs
  simp [skip, left, Measured.size]

theorem keeps_ofOption {α : Type} (a? : Option α) : Keeps (ofOption a?) := by
  cases a?
  · exact keeps_fail
  · exact keeps_pure _

end Reader

end WidgetLayout.Text
