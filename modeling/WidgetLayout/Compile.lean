/-
Compiling actions: what compiling a layout may do, one small step at a time.

A compilation reads tokens from any source, writes bytes to a sink, counts what it wrote and records
what it did.  All of that is one `Run`, and it stays as it is when an action fails: bytes that were
written before an error are written.

No action makes tokens come back, and `expect` takes one, so a compilation that takes a token in
every round comes to an end.
-/
import WidgetLayout.Error
import WidgetLayout.Progress
import WidgetLayout.Sink
import WidgetLayout.Token.Source
import WidgetLayout.Value

namespace WidgetLayout

/-- Counters of what was compiled. -/
structure Stats where
  widgets : Nat
  /-- Properties with a literal value. -/
  properties : Nat
  /-- Properties that are bound. -/
  bindings : Nat
  /-- How deep the widgets were nested; a root alone has depth 1. -/
  maxDepth : Nat
deriving DecidableEq, Repr, Inhabited

/-- Nothing counted yet. -/
def Stats.zero : Stats := ⟨0, 0, 0, 0⟩

/-- Something that a compilation did. -/
inductive Event
  | token (t : Token)
  | widget (entry : WidgetEntry) (position : Position) (depth : Nat)
  | property (name : String) (position : Position) (value : Value)
  | binding (name : String) (position : Position) (source : String) (id : UInt32)
deriving Repr

/-- A compilation under way. -/
structure Run (σ : Type) where
  source : σ
  sink : Sink
  stats : Stats
  /-- What was done, the oldest first. -/
  trace : Array Event

/-- An action of a compilation, which may fail. -/
abbrev Compile (σ : Type) := EStateM Error (Run σ)

/-- A run is worked off token by token. -/
instance {σ : Type} [TokenSource σ] : Measured (Run σ) := ⟨fun run => TokenSource.size run.source⟩

namespace Compile

open WidgetLayout.Progress

variable {σ : Type}

/-! ### Actions -/

/-- Writes bytes to the sink. -/
def write (bytes : List UInt8) : Compile σ Unit := fun run =>
  let r := run.sink.write bytes
  if r.1 then .ok () { run with sink := r.2 }
    else .error (.output .sinkFull) { run with sink := r.2 }

/-- Records what was done. -/
def record (event : Event) : Compile σ Unit := fun run =>
  .ok () { run with trace := run.trace.push event }

/-- Changes the counters. -/
def tally (f : Stats → Stats) : Compile σ Unit :=
  fun run => .ok () { run with stats := f run.stats }

variable [TokenSource σ]

/-- The next token, left in place. -/
def peek : Compile σ (Option Token) := fun run =>
  let r := TokenSource.peek run.source
  .ok r.1 { run with source := r.2 }

/-- Takes the next token; where there is none, the place asked at is where the input ended. -/
def expect : Compile σ Token := fun run =>
  let r := TokenSource.take run.source
  match r.1 with
  | some t => .ok t { run with source := r.2, trace := run.trace.push (.token t) }
  | none => .error (.unexpectedEnd (TokenSource.position run.source)) { run with source := r.2 }

/-- Takes the next token, which must be of a kind. -/
def accept (kind : TokenKind) : Compile σ Token := do
  let t ← expect
  if t.kind = kind then return t else throw (.unexpectedToken t.position (.kind kind) t.text)

/-! ### Tokens do not come back -/

theorem keeps_write (bytes : List UInt8) : Keeps (write bytes : Compile σ Unit) := by
  intro run
  unfold write
  dsimp only
  split <;> exact Nat.le_refl _

theorem keeps_record (event : Event) : Keeps (record event : Compile σ Unit) :=
  fun _ => Nat.le_refl _

theorem keeps_tally (f : Stats → Stats) : Keeps (tally f : Compile σ Unit) := fun _ => Nat.le_refl _

theorem keeps_peek : Keeps (peek : Compile σ (Option Token)) :=
  fun run => TokenSource.size_peek_le run.source

theorem shrinks_expect : Shrinks (expect : Compile σ Token) := by
  constructor
  · intro run
    have h := TokenSource.size_take_le run.source
    unfold expect
    dsimp only
    split <;> exact h
  · intro run t run' h
    unfold expect at h
    dsimp only at h
    split at h
    · rename_i t' ht
      simp only [EStateM.Result.ok.injEq] at h
      rw [← h.2]
      exact TokenSource.size_take_lt run.source t' ht
    · simp at h

theorem shrinks_accept (kind : TokenKind) : Shrinks (accept kind : Compile σ Token) := by
  refine shrinks_bind shrinks_expect fun t => ?_
  split
  · exact keeps_pure t
  · exact keeps_throw _

end Compile

end WidgetLayout
