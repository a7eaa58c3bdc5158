/-!
# Spans

A span is a half-open range of byte offsets `start..stop` in the source text.
Tokens never overlap, so inside one source the start of a token's span also
serves as the token's identity: the comments of a statement are filed under it.
-/

namespace TolerantSql

/-- **A half-open range of byte offsets.** Nothing forces `start ≤ stop`: a
span that is handed in backwards is kept as it is. -/
structure Span where
  /-- First byte offset of the range. -/
  start : Nat
  /-- First byte offset after the range. -/
  stop : Nat
  deriving DecidableEq

namespace Span

/-- The empty span at an offset. -/
def empty (offset : Nat) : Span := ⟨offset, offset⟩

/-- Number of bytes covered. -/
def len (s : Span) : Nat := s.stop - s.start

/-- A span is empty when it ends where it starts. -/
def isEmpty (s : Span) : Bool := s.start == s.stop

/-- The least span that covers both. -/
def merge (s t : Span) : Span := ⟨min s.start t.start, max s.stop t.stop⟩

/-- The same range, `offset` bytes further on. -/
def shift (offset : Nat) (s : Span) : Span := ⟨s.start + offset, s.stop + offset⟩

/-- Spans are ordered by where they start, then by where they stop. -/
def le (s t : Span) : Bool :=
  s.start < t.start || (s.start == t.start && s.stop ≤ t.stop)

/-- The text `start..stop`. -/
def render (s : Span) : String := toString s.start ++ ".." ++ toString s.stop

/-- The least span that covers every span of a list; none for the empty
list. -/
def mergeAll : List Span → Option Span
  | [] => none
  | s :: rest => some (rest.foldl merge s)

end Span

end TolerantSql
