/-!
# A cursor over the source

The scanner reads characters through a cursor: the characters already taken,
most recent first, the characters to come, and the byte offset between the two.
The last character taken can be put back, once: putting back uses up the
permission that taking a character gave.
-/

namespace TolerantSql

/-- **A place between two characters of the source.** -/
structure Cursor where
  /-- Characters before the place, most recent first. -/
  taken : List Char
  /-- Characters after the place. -/
  rest : List Char
  /-- The byte offset of the place. -/
  pos : Nat
  /-- Whether the last character taken may still be put back. -/
  canUnread : Bool
  deriving DecidableEq

namespace Cursor

/-- The cursor before the first character. -/
def ofChars (chars : List Char) : Cursor := ⟨[], chars, 0, false⟩

/-- The cursor before the first character of a text. -/
def ofString (s : String) : Cursor := ofChars s.toList

def isAtEnd (c : Cursor) : Bool := c.rest.isEmpty

/-- The next character, which stays where it is. -/
def peek (c : Cursor) : Option Char := c.rest.head?

/-- The character `n` places behind the next one. -/
def peekNth (c : Cursor) (n : Nat) : Option Char := c.rest[n]?

/-- The cursor behind the next character; it stays at the end of the input. -/
def advance (c : Cursor) : Cursor :=
  match c.rest with
  | [] => c
  | ch :: rest => ⟨ch :: c.taken, rest, c.pos + ch.utf8Size, true⟩

/-- Takes the next character. -/
def bump (c : Cursor) : Option Char × Cursor := (c.peek, c.advance)

/-- Puts back the last character taken, if that is still allowed. -/
def unread (c : Cursor) : Cursor :=
  match c.canUnread, c.taken with
  | true, ch :: taken => ⟨taken, ch :: c.rest, c.pos - ch.utf8Size, false⟩
  | _, _ => { c with canUnread := false }

/-- Takes the next character if it is the given one. -/
def eat (c : Cursor) (ch : Char) : Bool × Cursor :=
  if c.peek = some ch then (true, c.advance) else (false, c)

/-- Takes characters as long as `p` holds of them. -/
def eatWhile (p : Char → Bool) (c : Cursor) : Cursor :=
  (c.rest.takeWhile p).foldl (fun c _ => c.advance) c

/-- The characters between the offset `start` and the cursor. -/
def sliceFrom (c : Cursor) (start : Nat) : List Char :=
  go c.taken c.pos []
where
  /-- Collects characters backwards from `pos` until `start` is reached. -/
  go : List Char → Nat → List Char → List Char
    | [], _, slice => slice
    | ch :: taken, pos, slice =>
      if pos ≤ start then slice else go taken (pos - ch.utf8Size) (ch :: slice)

/-- Taking a character leaves fewer to come. -/
theorem rest_advance (c : Cursor) : c.advance.rest = c.rest.tail := by
  unfold advance
  cases h : c.rest <;> simp [h]

/-- A cursor with a next character has fewer to come after taking it. -/
theorem length_rest_advance_lt {c : Cursor} {ch : Char} (h : c.peek = some ch) :
    c.advance.rest.length < c.rest.length := by
  rw [rest_advance]
  unfold peek at h
  cases hr : c.rest with
  | nil => simp [hr] at h
  | cons => simp

/-- Taking a given character never leaves more to come. -/
theorem length_rest_eat_le (c : Cursor) (ch : Char) :
    (c.eat ch).2.rest.length ≤ c.rest.length := by
  unfold eat
  split
  · exact Nat.le_of_lt (length_rest_advance_lt (by assumption))
  · exact Nat.le_refl _

/-- Taking characters never leaves more to come. -/
theorem length_rest_eatWhile_le (p : Char → Bool) (c : Cursor) :
    (c.eatWhile p).rest.length ≤ c.rest.length := by
  unfold eatWhile
  generalize c.rest.takeWhile p = w
  suffices h : ∀ c' : Cursor, (w.foldl (fun c _ => c.advance) c').rest.length ≤ c'.rest.length from
    h c
  induction w with
  | nil => intro c'; exact Nat.le_refl _
  | cons _ w ih =>
    intro c'
    refine Nat.le_trans (ih c'.advance) ?_
    rw [rest_advance, List.length_tail]
    exact Nat.sub_le _ _

end Cursor

end TolerantSql
