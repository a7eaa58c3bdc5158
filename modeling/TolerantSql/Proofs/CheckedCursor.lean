import TolerantSql.Proofs.Reading

/-!
# A cursor whose every step is checked

The scanner moves over a list of characters, where no place is out of range. A
scanner over the bytes of a text has no such luck: its place is a number, and a
number can lie behind the end, between the bytes of one character, or before the
token that is being read. `ByteCursor` is that scanner's state, and `Checked` is
a computation on it that fails as soon as it leaves the range: a slice has to lie
between two boundaries of characters in their order (`Checked.slice`), a new
place has to be a boundary not before the token (`Checked.moveTo`), taking bytes
off a place must not go below zero (`Checked.unread`), and a loop has to come
closer to the end of the text with every round (`Checked.loop`).

`Runs input s m c r` says that none of this happens: started at the place of the
cursor `c`, the computation `m` comes to an end with the answer and the place of
`r`, and that place still lies behind the place `s` where the token began.
Computations that run compose (`Runs.bind`), so that each operation is checked
once, here, and a scanner is checked by following its text. Putting a character
back is the one operation that may leave the token: it needs a character taken
since the token began (`Checked.runs_unread`).
-/

namespace TolerantSql

open String.Pos.Raw

/-- **A place in the bytes of a text.** -/
structure ByteCursor where
  /-- The text. -/
  input : String
  /-- The offset at which the current token begins. -/
  start : Nat
  /-- The offset of the place. -/
  pos : Nat
  /-- How many bytes the last character taken has, while it may be put back. -/
  last : Option Nat

/-- The place before the first byte of a text. -/
def ByteCursor.ofString (input : String) : ByteCursor := ⟨input, 0, 0, none⟩

/-- The bytes between the place and the end of the text. -/
def ByteCursor.bytesLeft (c : ByteCursor) : Nat := c.input.utf8ByteSize - c.pos

/-- **A computation on a place**, which has no result where it would leave the
range. -/
abbrev Checked := StateT ByteCursor Option

/-- What a round of a loop comes to. -/
inductive Round (σ α : Type) where
  /-- Another round, from a state. -/
  | again (state : σ)
  /-- The end of the loop. -/
  | done (answer : α)

namespace Checked

variable {σ α β : Type}

/-! ## The operations -/

/-- The characters between two offsets, which have to be boundaries in their
order. -/
def slice (input : String) (start stop : Nat) : Checked (List Char) := do
  guard (start ≤ stop ∧ IsValid input ⟨start⟩ ∧ IsValid input ⟨stop⟩)
  pure (extract input ⟨start⟩ ⟨stop⟩).toList

/-- The characters from the place to the end of the text. -/
def upcoming : Checked (List Char) := do
  let c ← get
  slice c.input c.pos c.input.utf8ByteSize

/-- The characters from the beginning of the token to the place. -/
def sliceFromStart : Checked (List Char) := do
  let c ← get
  slice c.input c.start c.pos

def isAtEnd : Checked Bool := do
  let c ← get
  pure (decide (c.input.utf8ByteSize ≤ c.pos))

/-- The next character. -/
def peek : Checked (Option Char) := do
  pure (← upcoming).head?

/-- The character `n` places behind the next one. -/
def peekNth (n : Nat) : Checked (Option Char) := do
  pure (← upcoming)[n]?

/-- **Moves to an offset**, which has to be a boundary, and not one before the
token. -/
def moveTo (pos : Nat) (last : Option Nat) : Checked Unit := do
  let c ← get
  guard (c.start ≤ pos ∧ IsValid c.input ⟨pos⟩)
  set { c with pos := pos, last := last }

/-- Takes the next character and keeps its size. -/
def bump : Checked (Option Char) := do
  match ← peek with
  | none => pure none
  | some ch =>
    let c ← get
    moveTo (c.pos + ch.utf8Size) (some ch.utf8Size)
    pure (some ch)

/-- Puts back the last character taken, if its size is still there. -/
def unread : Checked Unit := do
  let c ← get
  match c.last with
  | none => pure ()
  | some size =>
    guard (size ≤ c.pos)
    moveTo (c.pos - size) none

/-- Takes the next character if it is the given one. -/
def eat (ch : Char) : Checked Bool := do
  if (← peek) = some ch then
    let _ ← bump
    pure true
  else pure false

/-- **Goes round until the answer is there.** A round that does not come closer to
the end of the text has no other one behind it. -/
def loop (round : σ → Checked (Round σ α)) (state : σ) : Checked α := fun c =>
  match round state c with
  | none => none
  | some (.done answer, c') => some (answer, c')
  | some (.again state, c') =>
    if c'.bytesLeft < c.bytesLeft then loop round state c' else none
termination_by c => c.bytesLeft

/-- Takes characters as long as `p` holds of them. -/
def eatWhile (p : Char → Bool) : Checked Unit :=
  loop (fun _ => do
    if (← peek).any p then
      let _ ← bump
      pure (.again ())
    else pure (.done ())) ()

/-- A check that succeeds does nothing. -/
theorem guard_bind {p : Prop} [Decidable p] (h : p) (f : Unit → Checked α) :
    ((guard p : Checked Unit) >>= f) = f () := by
  rw [guard, if_pos h]
  rfl

end Checked

/-! ## Cursors that stand in a text -/

namespace Cursor

variable {input : String} {s c c' : Cursor} {text v : List Char} {ch : Char}

/-- Reading never moves back. -/
theorem Reads.pos_le (h : s.Reads text c) : s.pos ≤ c.pos := by
  rw [h.pos]
  exact Nat.le_add_right _ _

/-- **The cursor stands in a text**: the characters on its two sides are those of
the text, and its offset counts the bytes of the first side. -/
structure StandsIn (input : String) (c : Cursor) : Prop where
  chars : c.taken.reverse ++ c.rest = input.toList
  pos : c.pos = String.utf8Len c.taken

theorem standsIn_ofString (input : String) : StandsIn input (.ofString input) := ⟨rfl, rfl⟩

namespace StandsIn

/-- Reading on keeps the cursor in the text. -/
theorem reads (h : StandsIn input s) (hr : s.Reads text c) : StandsIn input c := by
  refine ⟨?_, ?_⟩
  · rw [hr.taken, List.reverse_append, List.reverse_reverse, List.append_assoc, ← hr.rest, h.chars]
  · rw [hr.pos, hr.taken, String.utf8Len_append, String.utf8Len_reverse, h.pos, Nat.add_comm]

/-- **A cursor that stands in a text stands at the boundary of a character.** -/
theorem isValid (h : StandsIn input c) : IsValid input ⟨c.pos⟩ := by
  rw [isValid_iff_exists_append]
  refine ⟨String.ofList c.taken.reverse, String.ofList c.rest, ?_, ?_⟩
  · rw [← String.ofList_append, h.chars, String.ofList_toList]
  · rw [String.rawEndPos_ofList, String.utf8Len_reverse, h.pos]

/-- The bytes of a text are those before a cursor and those to come. -/
theorem utf8ByteSize (h : StandsIn input c) :
    input.utf8ByteSize = c.pos + String.utf8Len c.rest := by
  rw [← String.utf8Len_toList, ← h.chars, String.utf8Len_append, String.utf8Len_reverse, h.pos]

/-- The slice of the text between two places is what was read between them. -/
theorem extract_eq (h : StandsIn input s) (hr : s.Reads text c) :
    extract input ⟨s.pos⟩ ⟨c.pos⟩ = String.ofList text := by
  have hinput : input = String.ofList (s.taken.reverse ++ text ++ c.rest) := by
    rw [List.append_assoc, ← hr.rest, h.chars, String.ofList_toList]
  rw [hr.pos, h.pos, ← String.utf8Len_reverse s.taken, hinput, String.extract_of_valid]

/-- **Slicing between two places of a text is in range.** -/
theorem slice_eq (h : StandsIn input s) (hr : s.Reads text c) (b : ByteCursor) :
    Checked.slice input s.pos c.pos b = some (text, b) := by
  have hrange : s.pos ≤ c.pos ∧ IsValid input ⟨s.pos⟩ ∧ IsValid input ⟨c.pos⟩ :=
    ⟨hr.pos_le, h.isValid, (h.reads hr).isValid⟩
  unfold Checked.slice
  rw [Checked.guard_bind hrange, h.extract_eq hr, String.toList_ofList]
  rfl

end StandsIn

/-- Putting back the last character of a text that was read leaves the rest of the
text. -/
theorem Reads.putBack {taken rest : List Char} {pos : Nat}
    (h : s.Reads text ⟨ch :: taken, rest, pos, true⟩) (hne : text ≠ []) :
    ch.utf8Size ≤ pos ∧
      ∃ front, s.Reads front ⟨taken, ch :: rest, pos - ch.utf8Size, false⟩ := by
  have hsplit := List.dropLast_concat_getLast hne
  generalize text.dropLast = front, text.getLast hne = last at hsplit
  subst hsplit
  have htaken := h.taken
  rw [List.reverse_concat, List.cons_append, List.cons.injEq] at htaken
  obtain ⟨rfl, htaken⟩ := htaken
  have hpos : pos = s.pos + String.utf8Len (front ++ [ch]) := h.pos
  rw [String.utf8Len_append, String.utf8Len_cons, String.utf8Len_nil, Nat.zero_add,
    ← Nat.add_assoc] at hpos
  refine ⟨hpos ▸ Nat.le_add_left _ _, front, ?_, htaken, ?_⟩
  · rw [h.rest, List.append_assoc, List.singleton_append]
  · rw [hpos, Nat.add_sub_cancel]

/-- At the end, taking a character does nothing. -/
theorem advance_of_peek_eq_none (h : c.peek = none) : c.advance = c := by
  unfold advance
  rw [List.head?_eq_none_iff.1 h]

/-- The cursor behind the next character. -/
theorem advance_of_peek_eq_some (h : c.peek = some ch) :
    c.advance = ⟨ch :: c.taken, c.rest.tail, c.pos + ch.utf8Size, true⟩ := by
  unfold advance
  rw [peek_eq_some h]
  rfl

/-- Taking a character moves on. -/
theorem pos_lt_advance (h : c.peek = some ch) : c.pos < c.advance.pos := by
  rw [advance_of_peek_eq_some h]
  exact Nat.lt_add_of_pos_right ch.utf8Size_pos

theorem pos_le_advance (c : Cursor) : c.pos ≤ c.advance.pos := by
  cases hpeek : c.peek with
  | none => rw [advance_of_peek_eq_none hpeek]
  | some ch => exact Nat.le_of_lt (pos_lt_advance hpeek)

/-- Taking a given character never moves back. -/
theorem pos_le_eat {b : Bool} (h : c.eat ch = (b, c')) : c.pos ≤ c'.pos := by
  unfold eat at h
  split at h
  · cases h
    exact pos_le_advance c
  · cases h
    exact Nat.le_refl _

/-- What a run of a class begins with. -/
theorem eatWhile_eq (p : Char → Bool) (c : Cursor) :
    c.eatWhile p = if c.peek.any p then c.advance.eatWhile p else c := by
  unfold eatWhile peek
  rw [rest_advance]
  cases hr : c.rest with
  | nil => rfl
  | cons ch rest =>
    rw [List.takeWhile_cons, List.head?_cons, Option.any_some, List.tail_cons]
    split <;> rfl

/-- **The place of a cursor in the bytes of a text**, inside a token that begins
at `start`. -/
def toBytes (input : String) (start : Nat) (c : Cursor) : ByteCursor :=
  ⟨input, start, c.pos, if c.canUnread then c.taken.head?.map Char.utf8Size else none⟩

/-- **The cursor `c` stands in a text, at or behind `s`.** -/
structure Behind (input : String) (s c : Cursor) : Prop where
  standsIn : StandsIn input s
  reads : ∃ text, s.Reads text c

namespace Behind

/-- A cursor that stands in a text stands behind itself. -/
theorem refl (h : StandsIn input c) : Behind input c c := ⟨h, [], .refl c⟩

/-- The cursor itself stands in the text. -/
theorem here (h : Behind input s c) : StandsIn input c :=
  h.standsIn.reads h.reads.choose_spec

/-- Reading on stays behind the same place. -/
theorem trans (h : Behind input s c) (hr : c.Reads text c') : Behind input s c' :=
  ⟨h.standsIn, _, h.reads.choose_spec.trans hr⟩

/-- The offset is not before the one of the place. -/
theorem pos_le (h : Behind input s c) : s.pos ≤ c.pos := h.reads.choose_spec.pos_le

/-- Further on, fewer bytes are left. -/
theorem bytesLeft_lt (h : Behind input s c') (hlt : c.pos < c'.pos) :
    (c'.toBytes input s.pos).bytesLeft < (c.toBytes input s.pos).bytesLeft := by
  have hsize := h.here.utf8ByteSize
  unfold ByteCursor.bytesLeft toBytes
  dsimp only
  omega

/-- Taking a character stays behind the same place. -/
theorem advance (h : Behind input s c) : Behind input s c.advance := by
  cases hpeek : c.peek with
  | none => rwa [advance_of_peek_eq_none hpeek]
  | some ch => exact h.trans (reads_advance (peek_eq_some hpeek))

end Behind

end Cursor

/-! ## Computations that stay in range -/

namespace Checked

open Cursor

variable {σ α β : Type} {input : String} {s c c' : Cursor}

/-- **The computation stays in range**: from the place of `c` it ends with the
answer and at the place of `r`, in a token that begins at the place of `s`. -/
structure Runs (input : String) (s : Cursor) (m : Checked α) (c : Cursor) (r : α × Cursor) :
    Prop where
  run : m (c.toBytes input s.pos) = some (r.1, r.2.toBytes input s.pos)
  behind : Behind input s r.2

namespace Runs

variable {m m' : Checked α} {r r' : α × Cursor}

/-- An answer that needs no look at the text. -/
theorem pure (h : Behind input s c) (a : α) : Runs input s (pure a) c (a, c) := ⟨rfl, h⟩

/-- **Computations that stay in range compose.** -/
theorem bind {f : α → Checked β} {a : α} {q : β × Cursor} (h : Runs input s m c (a, c'))
    (hf : Behind input s c' → Runs input s (f a) c' q) : Runs input s (m >>= f) c q := by
  have hrest := hf h.behind
  refine ⟨?_, hrest.behind⟩
  show (m (c.toBytes input s.pos)).bind (fun x => f x.1 x.2) = _
  rw [h.run]
  exact hrest.run

/-- The same, with the answer and the place known by another name. -/
theorem of_eq (h : Runs input s m c r) (hr : r = r') : Runs input s m c r' := hr ▸ h

section Choice

variable {p : Prop} [Decidable p]

/-- A choice that goes the first way. -/
theorem pos (hp : p) (h : Runs input s m c r) : Runs input s (if p then m else m') c r := by
  rwa [if_pos hp]

/-- A choice that goes the second way. -/
theorem neg (hp : ¬ p) (h : Runs input s m' c r) : Runs input s (if p then m else m') c r := by
  rwa [if_neg hp]

/-- A choice stays in range if both ways do. -/
theorem ite (h : p → Runs input s m c r) (h' : ¬ p → Runs input s m' c r') :
    Runs input s (if p then m else m') c (if p then r else r') := by
  by_cases hp : p
  · rw [if_pos hp, if_pos hp]
    exact h hp
  · rw [if_neg hp, if_neg hp]
    exact h' hp

/-- A choice between two ways that give the same answer. -/
theorem ite_place {a : α} {c₁ c₂ : Cursor} (h : p → Runs input s m c (a, c₁))
    (h' : ¬ p → Runs input s m' c (a, c₂)) :
    Runs input s (if p then m else m') c (a, if p then c₁ else c₂) := by
  rw [apply_ite (Prod.mk a)]
  exact .ite h h'

end Choice

/-- A choice by an answer stays in range if both ways do. -/
theorem branch {m : Checked Bool} {m₁ m₂ : Checked α} {r : Bool × Cursor}
    {f g : Cursor → α × Cursor} : Runs input s m c r →
    (∀ {c'}, Behind input s c' → Runs input s m₁ c' (f c')) →
    (∀ {c'}, Behind input s c' → Runs input s m₂ c' (g c')) →
    Runs input s (m >>= fun b => if b = true then m₁ else m₂) c
      (match r with
        | (true, c) => f c
        | (false, c) => g c) := by
  intro h ht hf
  obtain ⟨b, c'⟩ := r
  cases b with
  | true => exact h.bind ht
  | false => exact h.bind hf

section Loop

variable {round : σ → Checked (Round σ α)} {state : σ}

/-- A loop whose round is its last. -/
theorem loop_done {a : α} (h : Runs input s (round state) c (.done a, c')) :
    Runs input s (loop round state) c (a, c') := by
  refine ⟨?_, h.behind⟩
  rw [loop, h.run]

/-- **A loop with another round behind one** that takes a character. -/
theorem loop_again {next : σ} (h : Runs input s (round state) c (.again next, c'))
    (hlt : c.pos < c'.pos) (hnext : Behind input s c' → Runs input s (loop round next) c' r) :
    Runs input s (loop round state) c r := by
  refine ⟨?_, (hnext h.behind).behind⟩
  rw [loop, h.run]
  dsimp only
  rw [if_pos (h.behind.bytesLeft_lt hlt)]
  exact (hnext h.behind).run

end Loop

end Runs

/-! ## The operations stay in range -/

/-- The characters to come can be sliced. -/
theorem runs_upcoming (h : Behind input s c) : Runs input s upcoming c (c.rest, c) := by
  -- the cursor behind all that is to come stands at the last byte
  have hend : c.Reads c.rest ⟨c.rest.reverse ++ c.taken, [], input.utf8ByteSize, false⟩ :=
    ⟨(List.append_nil _).symm, rfl, h.here.utf8ByteSize⟩
  exact ⟨h.here.slice_eq hend _, h⟩

theorem runs_peek (h : Behind input s c) : Runs input s peek c (c.peek, c) :=
  (runs_upcoming h).bind fun h => .pure h _

theorem runs_peek_of {ch? : Option Char} (h : Behind input s c) (hpeek : c.peek = ch?) :
    Runs input s peek c (ch?, c) :=
  (runs_peek h).of_eq (congrArg (·, c) hpeek)

theorem runs_peekNth (h : Behind input s c) (n : Nat) :
    Runs input s (peekNth n) c (c.peekNth n, c) :=
  (runs_upcoming h).bind fun h => .pure h _

/-- The text of the token so far can be sliced. -/
theorem runs_sliceFromStart (h : Behind input s c) :
    Runs input s sliceFromStart c (c.sliceFrom s.pos, c) := by
  have hreads := h.reads.choose_spec
  rw [hreads.sliceFrom]
  exact ⟨h.standsIn.slice_eq hreads _, h⟩

/-- The end of the text is where no character is to come. -/
theorem runs_isAtEnd (h : Behind input s c) : Runs input s isAtEnd c (c.isAtEnd, c) := by
  refine ⟨?_, h⟩
  have hend : decide (input.utf8ByteSize ≤ c.pos) = c.isAtEnd := by
    rw [h.here.utf8ByteSize, Cursor.isAtEnd]
    cases c.rest with
    | nil => exact decide_eq_true (Nat.le_refl _)
    | cons ch rest =>
      have := ch.utf8Size_pos
      refine decide_eq_false ?_
      rw [String.utf8Len_cons]
      omega
  show some (decide (input.utf8ByteSize ≤ c.pos), _) = _
  rw [hend]

/-- **Moving to the place of a cursor in the text is in range.** -/
theorem moveTo_toBytes (h : Behind input s c') :
    moveTo c'.pos (c'.toBytes input s.pos).last (c.toBytes input s.pos)
      = some ((), c'.toBytes input s.pos) := by
  show ((guard (s.pos ≤ c'.pos ∧ IsValid input ⟨c'.pos⟩) : Checked Unit)
    >>= fun _ => set (c'.toBytes input s.pos)) (c.toBytes input s.pos) = _
  rw [guard_bind ⟨h.pos_le, h.here.isValid⟩]
  rfl

/-- **Taking a character stays in range.** -/
theorem runs_bump_some {ch : Char} (h : Behind input s c) (hpeek : c.peek = some ch) :
    Runs input s bump c (some ch, c.advance) := by
  refine (runs_peek_of h hpeek).bind fun h => ?_
  have hnext := advance_of_peek_eq_some hpeek
  have hmove := moveTo_toBytes (c := c) h.advance
  rw [hnext] at hmove ⊢
  refine ⟨?_, hnext ▸ h.advance⟩
  show (moveTo _ _ _).bind _ = _
  exact hmove ▸ rfl

/-- At the end there is no character to take. -/
theorem runs_bump_none (h : Behind input s c) (hpeek : c.peek = none) :
    Runs input s bump c (none, c) :=
  (runs_peek_of h hpeek).bind fun h => .pure h none

theorem runs_bump (h : Behind input s c) :
    Runs input s bump c (c.peek, c.advance) := by
  cases hpeek : c.peek with
  | none =>
    rw [advance_of_peek_eq_none hpeek]
    exact runs_bump_none h hpeek
  | some ch => exact runs_bump_some h hpeek

/-- **Putting a character back stays in range** if there is none before the place
at which the token begins, or one was taken since. -/
theorem runs_unread (h : Behind input s c) (hheld : s.taken = [] ∨ s.pos < c.pos) :
    Runs input s unread c ((), c.unread) := by
  obtain ⟨text, hreads⟩ := h.reads
  obtain ⟨taken, rest, pos, canUnread⟩ := c
  cases canUnread with
  | false => exact ⟨rfl, h⟩
  | true =>
    cases taken with
    | nil => exact ⟨rfl, h.standsIn, text, hreads.rest, hreads.taken, hreads.pos⟩
    | cons ch taken =>
      have hne : text ≠ [] := by
        rintro rfl
        rcases hheld with hnil | hlt
        · have htaken : ch :: taken = s.taken := hreads.taken
          rw [hnil] at htaken
          cases htaken
        · exact Nat.ne_of_gt hlt hreads.pos
      obtain ⟨hsize, hfront⟩ := hreads.putBack hne
      have hbehind : Behind input s ⟨taken, ch :: rest, pos - ch.utf8Size, false⟩ :=
        ⟨h.standsIn, hfront⟩
      refine ⟨?_, hbehind⟩
      show ((guard (ch.utf8Size ≤ pos) : Checked Unit)
        >>= fun _ => moveTo (pos - ch.utf8Size) none) _ = _
      rw [guard_bind hsize]
      exact moveTo_toBytes hbehind

/-- Where no character was taken since the token began, putting one back leaves
the token. -/
example : unread ⟨"ab", 1, 1, some 1⟩ = none := rfl

/-- Putting back a character that was just taken stays in range. -/
theorem runs_unread_advance {ch : Char} (h : Behind input s c) (hpeek : c.peek = some ch) :
    Runs input s unread c.advance ((), c.advance.unread) :=
  runs_unread h.advance (.inr (Nat.lt_of_le_of_lt h.pos_le (pos_lt_advance hpeek)))

/-- **Taking a given character stays in range.** -/
theorem runs_eat (h : Behind input s c) (ch : Char) :
    Runs input s (eat ch) c (c.eat ch) := by
  refine (runs_peek h).bind fun h => ?_
  refine .ite (fun _ => ?_) fun _ => .pure h false
  exact (runs_bump h).bind fun h => .pure h true

/-- **Taking characters of a class stays in range.** -/
theorem runs_eatWhile (p : Char → Bool) {c : Cursor} (h : Behind input s c) :
    Runs input s (eatWhile p) c ((), c.eatWhile p) := by
  rw [Cursor.eatWhile_eq]
  by_cases hp : c.peek.any p = true
  · obtain ⟨ch, hpeek, -⟩ := (Option.any_eq_true _ _).1 hp
    have := length_rest_advance_lt hpeek
    rw [if_pos hp]
    refine .loop_again ?_ (pos_lt_advance hpeek) fun h => runs_eatWhile p h
    exact (runs_peek h).bind fun h => .pos hp ((runs_bump h).bind fun h => .pure h _)
  · rw [if_neg hp]
    exact .loop_done ((runs_peek h).bind fun h => .neg hp (.pure h _))
termination_by c.rest.length

end Checked

end TolerantSql
