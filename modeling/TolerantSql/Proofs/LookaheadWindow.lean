import Mathlib.Data.List.GetD
import Mathlib.Logic.Function.Iterate
import TolerantSql.Proofs.CommentConservation
import TolerantSql.Proofs.LosslessLexing

/-!
# A window of three lexemes

A parser never looks further than two lexemes behind the current one. It need not have
the whole stream then: three lexemes are enough, and a scanner that stands behind the
last of them. `LookaheadWindow` keeps them in a ring. Taking the current lexeme pulls
one more from the scanner into the slot that becomes free, and the next slot becomes
the current one.

The window shows the front of a stream (`Shows`): its slots, from the current one on
and round the ring, are the first three lexemes of the stream, and the scanner goes on
with the rest. One step of the window is one step of the stream (`Shows.advance`), past
the end of the input too, where the scanner finds the end over and over. So a window
and a stream of the same source agree for good, and both are told by the tokens of the
source: the lexemes are its tokens without blanks and comments, and then its end
forever, each with the comments between it and the one before (`IsLexemeAt`).
-/

namespace TolerantSql

open Lexer

/-! ## Pulling lexemes from the scanner -/

/-- The scanner does not stand still at a blank or a comment. -/
theorem Lexer.length_rest_nextToken_lt {c : Cursor}
    (h : (nextToken c).1.kind.isTrivia = true) :
    (nextToken c).2.rest.length < c.rest.length := by
  by_cases hr : c.rest = []
  · rw [nextToken_nil hr] at h
    cases h
  · obtain ⟨text, token, hread, stops⟩ := exists_isToken hr
    obtain ⟨after, hnext, hreads⟩ := nextToken_of_isToken token hread.rest stops
    have hlength := hreads.length_rest
    have hpos := List.length_pos_iff.2 token.ne_nil
    rw [hnext]
    dsimp only
    omega

/-- **Pulls the next lexeme from the scanner**, with `comments` before it: blanks are
dropped and comments gathered on the way. -/
def pull (comments : List Token) (c : Cursor) : Lexeme × Cursor :=
  let token := (nextToken c).1
  if _h : token.kind.isComment then pull (comments ++ [token]) (nextToken c).2
  else if _h : token.kind.isTrivia then pull comments (nextToken c).2
  else (⟨token, comments⟩, (nextToken c).2)
termination_by c.rest.length
decreasing_by
  · exact length_rest_nextToken_lt (TokenKind.isTrivia_of_isComment _h)
  · exact length_rest_nextToken_lt _h

/-- The stream of the tokens that a scanner has to come. -/
def TokenStream.ofCursor (comments : List Token) (c : Cursor) : TokenStream :=
  ofTokens comments (tokensFrom c.rest.length c)

/-- **Pulling takes the front of what the scanner has to come.** -/
theorem pull_eq (comments : List Token) (c : Cursor) :
    (pull comments c).1 = (TokenStream.ofCursor comments c).current
      ∧ TokenStream.ofCursor [] (pull comments c).2
        = (TokenStream.ofCursor comments c).advance := by
  by_cases hr : c.rest = []
  · -- at the end the scanner stays where it is
    have hpull : pull comments c = (⟨.eof c.pos, comments⟩, c) := by
      rw [pull, nextToken_nil hr]
      rfl
    have hstream (comments : List Token) :
        TokenStream.ofCursor comments c = ⟨[], ⟨.eof c.pos, comments⟩⟩ := by
      rw [TokenStream.ofCursor, hr]
      rfl
    rw [hpull, hstream, hstream]
    exact ⟨rfl, rfl⟩
  · obtain ⟨text, token, hread, stops⟩ := exists_isToken hr
    obtain ⟨after, hnext, hreads⟩ := nextToken_of_isToken token hread.rest stops
    set t := tokenAt c.pos (lexeme c).1 text
    have hlength := hreads.length_rest
    have hpos := List.length_pos_iff.2 token.ne_nil
    have heof : t.isEof = false := token.isEof_eq_false
    -- the first of the tokens to come, and those behind it
    have htokens : tokensFrom c.rest.length c = t :: tokensFrom after.rest.length after := by
      obtain ⟨fuel, hfuel⟩ : ∃ fuel, c.rest.length = fuel + 1 := ⟨c.rest.length - 1, by omega⟩
      have hagree := (lexes_tokensFrom _ after (Nat.le_refl _)).eq_tokensFrom rfl rfl
        (show after.rest.length ≤ fuel by omega)
      rw [hfuel, tokensFrom, hnext]
      dsimp only
      rw [heof, if_neg Bool.false_ne_true, hagree]
    rw [pull, TokenStream.ofCursor, htokens, TokenStream.ofTokens, hnext, heof,
      if_neg Bool.false_ne_true]
    dsimp only
    split_ifs with hcomment htrivia
    · exact pull_eq (comments ++ [t]) after
    · exact pull_eq comments after
    · exact ⟨rfl, rfl⟩
termination_by c.rest.length
decreasing_by all_goals omega

/-! ## The window -/

/-- **Three lexemes in a ring**, and the scanner that stands behind them. -/
structure LookaheadWindow where
  /-- Where the scanner stands. -/
  cursor : Cursor
  slots : Vector Lexeme 3
  /-- The slot of the current lexeme. -/
  head : Fin 3

namespace LookaheadWindow

/-- The window on the first lexemes of a source. -/
def ofSource (source : String) : LookaheadWindow :=
  let (first, c) := pull [] (Cursor.ofString source)
  let (second, c) := pull [] c
  let (third, c) := pull [] c
  ⟨c, #v[first, second, third], 0⟩

/-- The lexeme `n` places behind the current one, for an `n` below three. -/
def peek (w : LookaheadWindow) (n : Nat) : Lexeme := w.slots.get (Fin.ofNat 3 (w.head + n))

/-- **Takes the current lexeme.** Its slot is filled with the next lexeme of the scanner
before the slot behind it becomes the current one. -/
def advance (w : LookaheadWindow) : Lexeme × LookaheadWindow :=
  let (next, cursor) := pull [] w.cursor
  (w.slots.get w.head, ⟨cursor, w.slots.set w.head next, w.head + 1⟩)

/-- **The window shows the front of a stream**, and its scanner goes on with the rest. -/
structure Shows (w : LookaheadWindow) (s : TokenStream) : Prop where
  slots : ∀ n < 3, w.peek n = s.peek n
  rest : TokenStream.ofCursor [] w.cursor = s.advance.advance.advance

theorem shows_ofSource (source : String) : (ofSource source).Shows (.ofSource source) := by
  obtain ⟨hfirst, hrest⟩ := pull_eq [] (Cursor.ofString source)
  obtain ⟨hsecond, hrest'⟩ := pull_eq [] (pull [] (Cursor.ofString source)).2
  obtain ⟨hthird, hrest''⟩ := pull_eq [] (pull [] (pull [] (Cursor.ofString source)).2).2
  rw [hrest] at hsecond hrest'
  rw [hrest'] at hthird hrest''
  refine ⟨fun n hn => ?_, hrest''⟩
  match n, hn with
  | 0, _ => exact hfirst
  | 1, _ => exact hsecond
  | 2, _ => exact hthird

section Ring

variable (w : LookaheadWindow)

/-- The slot at the head is the first one that is seen. -/
theorem advance_fst : w.advance.1 = w.peek 0 := by
  have hslot : Fin.ofNat 3 (w.head + 0) = w.head := Fin.ofNat_val_eq_self w.head
  rw [peek, hslot]
  rfl

theorem peek_advance {n : Nat} (hn : n < 2) : w.advance.2.peek n = w.peek (n + 1) := by
  have hslot : Fin.ofNat 3 ((w.head + 1 : Fin 3) + n) = Fin.ofNat 3 (w.head + (n + 1)) := by
    simp only [Fin.ext_iff, Fin.val_ofNat, Fin.val_add]
    omega
  show (w.slots.set w.head (pull [] w.cursor).1).get (Fin.ofNat 3 ((w.head + 1 : Fin 3) + n)) = _
  rw [hslot]
  refine Vector.getElem_set_ne w.head.isLt _ ?_
  show w.head.val ≠ (w.head + (n + 1)) % 3
  omega

/-- The slot that has been filled is the last one round the ring. -/
theorem peek_advance_two : w.advance.2.peek 2 = (pull [] w.cursor).1 := by
  have hslot : Fin.ofNat 3 ((w.head + 1 : Fin 3) + 2) = w.head := by
    simp only [Fin.ext_iff, Fin.val_ofNat, Fin.val_add]
    omega
  show (w.slots.set w.head (pull [] w.cursor).1).get (Fin.ofNat 3 ((w.head + 1 : Fin 3) + 2)) = _
  rw [hslot]
  exact Vector.getElem_set_self w.head.isLt

end Ring

/-- **A step of the window is a step of the stream.** -/
theorem Shows.advance {w : LookaheadWindow} {s : TokenStream} (h : w.Shows s) :
    w.advance.2.Shows s.advance := by
  obtain ⟨hnext, hrest⟩ := pull_eq [] w.cursor
  rw [h.rest] at hnext hrest
  refine ⟨fun n hn => ?_, hrest⟩
  match n, hn with
  | 0, _ => rw [peek_advance w (by decide)]; exact h.slots 1 (by decide)
  | 1, _ => rw [peek_advance w (by decide)]; exact h.slots 2 (by decide)
  | 2, _ => rw [peek_advance_two]; exact hnext

/-- **A window and a stream of the same source agree** however often they advance. -/
theorem shows_iterate (source : String) (k : Nat) :
    ((fun w => w.advance.2)^[k] (ofSource source)).Shows
      (TokenStream.advance^[k] (.ofSource source)) := by
  induction k with
  | zero => exact shows_ofSource source
  | succ k ih =>
    rw [Function.iterate_succ_apply', Function.iterate_succ_apply']
    exact ih.advance

end LookaheadWindow

/-! ## The lexemes of a source -/

namespace TokenStream

/-- What is seen of a stream further on is seen further away. -/
theorem peek_iterate_advance (s : TokenStream) (k n : Nat) :
    (advance^[k] s).peek n = s.peek (k + n) := by
  induction k generalizing s with
  | zero => rw [Nat.zero_add]; rfl
  | succ k ih =>
    rw [Function.iterate_succ_apply, ih, Nat.add_right_comm]
    rfl

/-- **A stream hands out its lexemes**, and then its end without comments. -/
theorem peek_eq_getD (s : TokenStream) (n : Nat) :
    s.peek n = s.lexemes.getD n ⟨s.last.token, []⟩ := by
  induction n generalizing s with
  | zero =>
    unfold lexemes peek current
    cases s.pending <;> rfl
  | succ n ih =>
    show s.advance.peek n = _
    rw [ih]
    unfold lexemes advance
    cases s.pending with
    | cons l rest => rfl
    | nil => cases n <;> rfl

/-- The stream of a source ends where the source does. -/
theorem last_ofSource_eq (source : String) :
    (ofSource source).last.token = .eof source.utf8ByteSize := by
  have hlast := (lexes_tokenize source).getLast
  have htokens := (groups_ofSource source).map_token
  rw [Nat.zero_add, String.utf8Len_toList, List.getLast?_eq_some_iff] at hlast
  obtain ⟨front, hfront⟩ := hlast
  rw [lexemes, List.map_append, hfront, List.filter_append] at htokens
  exact List.singleton_inj.1 (List.append_inj' htokens rfl).2

/-- **The lexemes of a source are its tokens** without blanks and comments, and its end
forever; each has the comments before it, and an end that repeats has none. -/
theorem peek_ofSource (source : String) (n : Nat) :
    let tokens := (tokenize source).filter fun t => !t.kind.isTrivia
    ((ofSource source).peek n).token = tokens.getD n (.eof source.utf8ByteSize)
      ∧ if n < tokens.length then IsLexemeAt (tokenize source) n ((ofSource source).peek n)
        else ((ofSource source).peek n).comments = [] := by
  intro tokens
  have hgroups := groups_ofSource source
  have htokens : tokens = (ofSource source).lexemes.map Lexeme.token := hgroups.map_token.symm
  have hpeek : (ofSource source).peek n
      = (ofSource source).lexemes.getD n ⟨.eof source.utf8ByteSize, []⟩ := by
    rw [peek_eq_getD, last_ofSource_eq]
  rw [hpeek, htokens, List.length_map]
  refine ⟨(List.getD_map _ _ Lexeme.token).symm, ?_⟩
  split
  · next hn =>
    refine hgroups.isLexemeAt ?_
    rw [List.getD_eq_getElem _ _ hn]
    exact List.getElem?_eq_getElem hn
  · next hn => rw [List.getD_eq_default _ _ (Nat.le_of_not_lt hn)]

end TokenStream

/-- A parser that advances takes its input along. -/
theorem State.input_iterate_advance (s : State) (k : Nat) :
    (advance^[k] s).input = TokenStream.advance^[k] s.input := by
  induction k generalizing s with
  | zero => rfl
  | succ k ih => rw [Function.iterate_succ_apply, Function.iterate_succ_apply, ih]; rfl

/-- **A window on the lexemes shows the tokens of the source.** Let a source be read
through a window and by a parser, and let both advance `k` times. What the two see at
the first three places is the same. The tokens there are those behind the first `k` of
the source, blanks and comments left out, and where these have come to an end, the end
of the source, which is the last of them. Each has the comments between it and the token
before, and the end of the source has none once it repeats. One step more takes the
first of the three. -/
theorem lookahead_window_shows (source : String) (k : Nat) :
    let tokens : List Token := (tokenize source).filter fun t => !t.kind.isTrivia
    let window : LookaheadWindow := (fun w => w.advance.2)^[k] (LookaheadWindow.ofSource source)
    let s : State := State.advance^[k] (State.start (.ofSource source))
    tokens.getLast? = some (.eof source.utf8ByteSize)
    ∧ (∀ n < 3, s.input.peek n = window.peek n
      ∧ (window.peek n).token = tokens.getD (k + n) (.eof source.utf8ByteSize)
      ∧ if k + n < tokens.length then IsLexemeAt (tokenize source) (k + n) (window.peek n)
        else (window.peek n).comments = [])
    ∧ s.take.forest = [.token (tokens.getD k (.eof source.utf8ByteSize))]
    ∧ window.advance.1 = window.peek 0 := by
  intro tokens window s
  have hinput : s.input = TokenStream.advance^[k] (.ofSource source) :=
    State.input_iterate_advance _ k
  have hshows : window.Shows s.input := hinput ▸ LookaheadWindow.shows_iterate source k
  have hpeek (n : Nat) : s.input.peek n = (TokenStream.ofSource source).peek (k + n) := by
    rw [hinput, TokenStream.peek_iterate_advance]
  refine ⟨?_, fun n hn => ⟨(hshows.slots n hn).symm, ?_⟩, ?_, window.advance_fst⟩
  · have htokens : tokens = (TokenStream.ofSource source).lexemes.map Lexeme.token :=
      (TokenStream.groups_ofSource source).map_token.symm
    rw [htokens, TokenStream.lexemes, List.map_append, ← TokenStream.last_ofSource_eq]
    exact List.getLast?_concat
  · rw [hshows.slots n hn, hpeek]
    exact TokenStream.peek_ofSource source (k + n)
  · have hcurrent : s.current = tokens.getD k (.eof source.utf8ByteSize) :=
      (congrArg Lexeme.token (hpeek 0)).trans (TokenStream.peek_ofSource source k).1
    rw [State.take, hcurrent]

end TolerantSql
