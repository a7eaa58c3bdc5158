import TolerantSql.Proofs.CheckedScanning

/-!
# The cursor stays in range

A caller of a cursor may call its operations in any order: take a character, put
one back, take a character of its choice or a run of a class, look ahead. The
place is a count of bytes and what can be put back is remembered as a number of
bytes, so that a number kept for too long would lead to the middle of a
character, or before the beginning of the text.

`Cursor.Call` is one such call, with what it does to a cursor (`apply`) and with
the checked computation that does it on bytes (`check`). One call stays in range
(`Call.runs_check`), hence every sequence of calls does (`Call.runs_forM_check`).
What is remembered is used up by putting it back: until the next character is
taken, no further call moves the cursor (`Call.run_of_takesNothing`).
`cursor_stays_in_range` puts this together with the scanner's own calls
(`Checked.run_firstTokens`).
-/

namespace TolerantSql

namespace Cursor

/-! ## Putting back -/

/-- **Putting back the character just taken** restores the cursor, but for the
permission to do so. -/
theorem unread_advance {c : Cursor} {ch : Char} (h : c.peek = some ch) :
    c.advance.unread = { c with canUnread := false } := by
  rw [advance_of_peek_eq_some h]
  show (⟨c.taken, ch :: c.rest.tail, c.pos + ch.utf8Size - ch.utf8Size, false⟩ : Cursor) = _
  rw [Nat.add_sub_cancel, ← peek_eq_some h]

/-- Putting back uses up the permission to do so. -/
theorem canUnread_unread (c : Cursor) : c.unread.canUnread = false := by
  unfold unread
  split <;> rfl

/-- Without permission, putting back does nothing. -/
theorem unread_of_used {c : Cursor} (h : c.canUnread = false) : c.unread = c := by
  obtain ⟨taken, rest, pos, canUnread⟩ := c
  subst h
  rfl

/-! ## Calls -/

/-- **A call of an operation.** -/
inductive Call where
  /-- Take the next character. -/
  | bump
  /-- Put back the last character taken. -/
  | unread
  /-- Take the next character if it is the given one. -/
  | eat (ch : Char)
  /-- Take characters of a class. -/
  | eatWhile (p : Char → Bool)
  /-- Look at the next character. -/
  | peek
  /-- Look at a character behind the next one. -/
  | peekNth (n : Nat)

namespace Call

/-- The cursor after a call. -/
def apply : Call → Cursor → Cursor
  | bump, c => c.bump.2
  | unread, c => c.unread
  | eat ch, c => (c.eat ch).2
  | eatWhile p, c => c.eatWhile p
  | peek, c | peekNth _, c => c

/-- The call on the bytes of the text. -/
def check : Call → Checked Unit
  | bump => do let _ ← Checked.bump
  | unread => Checked.unread
  | eat ch => do let _ ← Checked.eat ch
  | eatWhile p => Checked.eatWhile p
  | peek => do let _ ← Checked.peek
  | peekNth n => do let _ ← Checked.peekNth n

/-- Whether a call takes a character. -/
def takes : Call → Cursor → Bool
  | bump, c => c.peek.isSome
  | eat ch, c => c.peek == some ch
  | eatWhile p, c => c.peek.any p
  | unread, _ | peek, _ | peekNth _, _ => false

/-- The cursor after one call after the other. -/
def run (calls : List Call) (c : Cursor) : Cursor := calls.foldl (fun c call => call.apply c) c

/-- No call of a sequence takes a character. -/
def TakesNothing : List Call → Cursor → Prop
  | [], _ => True
  | call :: calls, c => call.takes c = false ∧ TakesNothing calls (call.apply c)

variable {input : String} {s c : Cursor}

open Checked

/-- **One call stays in range**, in a text that is read from its beginning. -/
theorem runs_check (call : Call) (hs : s.taken = []) (h : Behind input s c) :
    Runs input s call.check c ((), call.apply c) := by
  cases call with
  | bump => exact (runs_bump h).bind fun h => .pure h ()
  | unread => exact runs_unread h (.inl hs)
  | eat ch => exact (runs_eat h ch).bind fun h => .pure h ()
  | eatWhile p => exact runs_eatWhile p h
  | peek => exact (runs_peek h).bind fun h => .pure h ()
  | peekNth n => exact (runs_peekNth h n).bind fun h => .pure h ()

/-- **Every sequence of calls stays in range.** -/
theorem runs_forM_check (calls : List Call) (hs : s.taken = []) (h : Behind input s c) :
    Runs input s (calls.forM check) c ((), run calls c) := by
  induction calls generalizing c with
  | nil => exact .pure h ()
  | cons call calls ih => exact (runs_check call hs h).bind fun h => ih h

/-- A call that takes no character does not move a cursor that has none to put
back. -/
theorem apply_of_takes_eq_false {call : Call} (htakes : call.takes c = false)
    (hused : c.canUnread = false) : call.apply c = c := by
  cases call with
  | bump =>
    have hend : c.peek.isNone := Option.isSome_eq_false_iff.1 htakes
    exact advance_of_peek_eq_none (Option.isNone_iff_eq_none.1 hend)
  | unread => exact unread_of_used hused
  | eat ch => exact congrArg Prod.snd (if_neg (beq_eq_false_iff_ne.1 htakes))
  | eatWhile p =>
    have hstop : c.peek.any p = false := htakes
    show c.eatWhile p = c
    rw [eatWhile_eq, hstop]
    rfl
  | peek => rfl
  | peekNth n => rfl

/-- **Until a character is taken, no call moves a cursor that has none to put
back.** -/
theorem run_of_takesNothing {calls : List Call} (hcalls : TakesNothing calls c)
    (hused : c.canUnread = false) : run calls c = c := by
  induction calls with
  | nil => rfl
  | cons call calls ih =>
    have hstay := apply_of_takes_eq_false hcalls.1 hused
    show run calls (call.apply c) = c
    rw [hstay]
    exact ih (hstay ▸ hcalls.2)

end Call

end Cursor

open Cursor String.Pos.Raw in
/-- **The cursor stays in range.** After any calls on a text, every slice and
every move was in range, and the place is the boundary of a character inside the
text. Putting a character back right after taking it restores the cursor but for
the permission to do so, and putting back once more, with no character taken in
between, changes nothing. And reading tokens is in range, with every place inside
a token at or behind its beginning. -/
theorem cursor_stays_in_range (input : String) (calls : List Call) :
    let c := Call.run calls (.ofString input)
    calls.forM Call.check (.ofString input) = some ((), c.toBytes input 0)
    ∧ IsValid input ⟨c.pos⟩ ∧ c.pos ≤ input.utf8ByteSize
    ∧ (∀ ch, c.bump.1 = some ch → c.bump.2.unread = { c with canUnread := false })
    ∧ (∀ idle, Call.TakesNothing idle c.unread → (Call.run idle c.unread).unread = c.unread)
    ∧ ∀ n, (Checked.firstTokens n).run' (.ofString input)
        = some (Lexer.firstTokens n (.ofString input)) := by
  intro c
  have hruns := Call.runs_forM_check calls (s := .ofString input) rfl
    (.refl (standsIn_ofString input))
  have hplace : StandsIn input c := hruns.behind.here
  refine ⟨hruns.run, hplace.isValid, ?_, fun ch hpeek => ?_, fun idle hidle => ?_, fun n => ?_⟩
  · rw [hplace.utf8ByteSize]
    exact Nat.le_add_right _ _
  · exact unread_advance hpeek
  · rw [Call.run_of_takesNothing hidle (canUnread_unread c), unread_of_used (canUnread_unread c)]
  · exact Checked.run_firstTokens n 0 (standsIn_ofString input)

open Cursor in
/-- A character of two bytes is put back as a whole, and only once. -/
theorem cursor_stays_in_range_accent :
    let c := Call.run [.bump] (.ofString "aé1")
    let idle := [.peekNth 1, .eat 'z', .eatWhile Char.isDigit]
    c.bump.1 = some 'é' ∧ c.bump.2.unread = { c with canUnread := false }
    ∧ Call.TakesNothing idle c.unread ∧ (Call.run idle c.unread).unread = c.unread := by
  intro c idle
  have hidle : Call.TakesNothing idle c.unread := ⟨rfl, rfl, rfl, trivial⟩
  have h := cursor_stays_in_range "aé1" [.bump]
  exact ⟨rfl, h.2.2.2.1 'é' rfl, hidle, h.2.2.2.2.1 idle hidle⟩

end TolerantSql
