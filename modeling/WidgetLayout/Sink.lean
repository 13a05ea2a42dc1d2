/-
Sinks: where written bytes go.

A sink keeps what it was given in order.  One with a capacity takes of a write what still fits and
then fails, so what it holds is always the beginning of what it was asked to hold.
-/

namespace WidgetLayout

/-- Bytes written so far, and how many there may be. -/
structure Sink where
  bytes : Array UInt8
  capacity : Option Nat
deriving Inhabited

namespace Sink

/-- An empty sink without bound. -/
def unbounded : Sink := ⟨#[], none⟩

/-- An empty sink for at most `n` bytes. -/
def bounded (n : Nat) : Sink := ⟨#[], some n⟩

/-- How many of `n` bytes the sink still takes. -/
def room (s : Sink) (n : Nat) : Nat :=
  match s.capacity with
  | none => n
  | some c => min n (c - s.bytes.size)

/-- Writes bytes; the flag says whether all of them fitted. -/
def write (s : Sink) (bytes : List UInt8) : Bool × Sink :=
  let n := s.room bytes.length
  (n = bytes.length, { s with bytes := s.bytes ++ bytes.take n })

end Sink

end WidgetLayout
