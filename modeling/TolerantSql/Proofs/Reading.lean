import Mathlib.Data.String.Basic
import TolerantSql.Token.Cursor

/-!
# Reading a text through a cursor

A cursor that moves from one place to another has read the text between the
two. `Cursor.Reads` says so of the whole zipper at once: the text stood in front
of the first place, stands behind the second, and its bytes are the distance
between the two. Whether the last character may still be put back is left open,
since a scanner that puts a character back ends where it was with that
permission used up.

Readings compose (`Reads.trans`), and `Cursor.sliceFrom` gives back the text
that was read (`Reads.sliceFrom`). Each operation of a cursor is one reading.
-/

namespace TolerantSql.Cursor

/-- **The cursor `c'` is the cursor `c` after reading `text`.** -/
structure Reads (c : Cursor) (text : List Char) (c' : Cursor) : Prop where
  /-- The text comes next at the first place. -/
  rest : c.rest = text ++ c'.rest
  /-- The text comes last before the second place. -/
  taken : c'.taken = text.reverse ++ c.taken
  /-- The places are as many bytes apart as the text has. -/
  pos : c'.pos = c.pos + String.utf8Len text

variable {c c' c'' : Cursor} {u v : List Char} {ch : Char}

namespace Reads

/-- Standing still reads nothing. -/
theorem refl (c : Cursor) : Reads c [] c := ⟨rfl, rfl, rfl⟩

/-- **Readings compose.** -/
theorem trans (h : Reads c u c') (h' : Reads c' v c'') : Reads c (u ++ v) c'' := by
  refine ⟨?_, ?_, ?_⟩
  · rw [h.rest, h'.rest, List.append_assoc]
  · rw [h'.taken, h.taken, List.reverse_append, List.append_assoc]
  · rw [h'.pos, h.pos, String.utf8Len_append, Nat.add_assoc]

/-- A reading that leaves the same characters to come has read the same text. -/
theorem text_unique (h : Reads c u c') (h' : Reads c v c'') (hr : c'.rest = c''.rest) : u = v :=
  List.append_cancel_right (h.rest.symm.trans (hr ▸ h'.rest))

/-- What is left behind a text that is known to come next. -/
theorem rest_eq (h : Reads c u c') (hc : c.rest = u ++ v) : c'.rest = v :=
  List.append_cancel_left (h.rest.symm.trans hc)

/-- A reading never leaves more to come. -/
theorem length_rest (h : Reads c u c') : c.rest.length = u.length + c'.rest.length := by
  rw [h.rest, List.length_append]

/-- The slice between two places, read backwards off the characters taken. -/
theorem sliceFrom_go (start : Nat) (w taken slice : List Char) :
    sliceFrom.go start (w ++ taken) (start + String.utf8Len w) slice = w.reverse ++ slice := by
  induction w generalizing slice with
  | nil =>
    cases taken with
    | nil => rfl
    | cons ch taken => exact if_pos (Nat.le_refl _)
  | cons ch w ih =>
    have hpos : ¬ start + String.utf8Len (ch :: w) ≤ start := by
      have := ch.utf8Size_pos
      rw [String.utf8Len_cons]
      omega
    rw [List.cons_append, sliceFrom.go, if_neg hpos, String.utf8Len_cons, ← Nat.add_assoc,
      Nat.add_sub_cancel, ih, List.reverse_cons, List.append_assoc]
    rfl

/-- **The slice from where a reading began is the text that was read.** -/
theorem sliceFrom (h : Reads c u c') : c'.sliceFrom c.pos = u := by
  have hlen : String.utf8Len u = String.utf8Len u.reverse := (String.utf8Len_reverse u).symm
  rw [Cursor.sliceFrom, h.taken, h.pos, hlen, sliceFrom_go, List.reverse_reverse, List.append_nil]

end Reads

/-! ## What the operations of a cursor read -/

/-- Taking a character reads it. -/
theorem reads_advance (h : c.rest = ch :: v) : Reads c [ch] c.advance := by
  unfold advance
  rw [h]
  exact ⟨h, rfl, by rw [String.utf8Len_cons, String.utf8Len_nil, Nat.zero_add]⟩

/-- What is left behind a character that was taken. -/
theorem rest_advance_cons (h : c.rest = ch :: v) : c.advance.rest = v := by
  rw [rest_advance, h]
  rfl

/-- **Putting back the character just taken reads nothing.** -/
theorem reads_unread (h : c.rest = ch :: v) : Reads c [] c.advance.unread := by
  have hadvance : c.advance = ⟨ch :: c.taken, v, c.pos + ch.utf8Size, true⟩ := by
    unfold advance
    rw [h]
  rw [hadvance]
  exact ⟨h, rfl, Nat.add_sub_cancel _ _⟩

/-- The next character is the first of those to come. -/
theorem peek_eq_some (h : c.peek = some ch) : c.rest = ch :: c.rest.tail := by
  unfold peek at h
  cases hr : c.rest with
  | nil => rw [hr] at h; cases h
  | cons a r => rw [hr] at h; cases h; rfl

theorem peek_cons (h : c.rest = ch :: v) : c.peek = some ch := by
  rw [peek, h]
  rfl

theorem peek_nil (h : c.rest = []) : c.peek = none := by
  rw [peek, h]
  rfl

/-- Eating a character that comes next takes it. -/
theorem eat_cons (h : c.rest = ch :: v) : c.eat ch = (true, c.advance) :=
  if_pos (peek_cons h)

/-- Eating a character that does not come next does nothing. -/
theorem eat_of_ne (h : c.rest.head? ≠ some ch) : c.eat ch = (false, c) := if_neg h

/-- Eating tells whether the character came next. -/
theorem eat_cases (c : Cursor) (ch : Char) :
    (c.rest = ch :: c.rest.tail ∧ c.eat ch = (true, c.advance)) ∨
      (c.rest.head? ≠ some ch ∧ c.eat ch = (false, c)) := by
  by_cases h : c.peek = some ch
  · exact .inl ⟨peek_eq_some h, if_pos h⟩
  · exact .inr ⟨h, if_neg h⟩

/-- Taking as many characters as a text has reads the text. -/
theorem reads_foldl_advance (w : List Char) (h : c.rest = w ++ v) :
    Reads c w (w.foldl (fun c _ => c.advance) c) := by
  induction w generalizing c with
  | nil => exact Reads.refl c
  | cons a w ih => exact (reads_advance h).trans (ih (rest_advance_cons h))

/-- **Taking characters of a class reads the longest run of them.** -/
theorem reads_eatWhile (p : Char → Bool) (c : Cursor) :
    Reads c (c.rest.takeWhile p) (c.eatWhile p) :=
  reads_foldl_advance _ List.takeWhile_append_dropWhile.symm

/-- What is left behind a run of a class. -/
theorem rest_eatWhile (p : Char → Bool) (c : Cursor) :
    (c.eatWhile p).rest = c.rest.dropWhile p :=
  (reads_eatWhile p c).rest_eq List.takeWhile_append_dropWhile.symm

end TolerantSql.Cursor
