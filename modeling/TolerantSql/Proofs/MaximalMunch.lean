import Mathlib.Data.List.TakeWhile
import TolerantSql.Proofs.Reading
import TolerantSql.Token.Lexer

/-!
# Every token is as long as it can be

A scanner reads a text and stops. What stops it is a test on the characters
behind the text, and only on those: `TokenKind.goesOn` is that test for each kind
of token, written down once and apart from the scanners. With it a scanner is
described by three facts, which `Munches` bundles:

* it reads the text, from where it stands;
* the text does not go on into what stands behind it, so the token is as long
  as it can be;
* wherever the same text comes next and does not go on, the scanner reads the
  same text and finds the same kind – whatever stood before it, and whatever
  follows it.

The last fact is what makes lexing local. That no character is lost follows from
the first, that a source can be cut at a semicolon or written anew from its
tokens from the other two.
-/

namespace TolerantSql

namespace Lexer

/-! ## What can follow a text -/

/-- Whether a text starts with a character of a class. -/
def headIs (p : Char → Bool) (t : List Char) : Bool := t.head?.any p

@[simp] theorem headIs_nil (p : Char → Bool) : headIs p [] = false := rfl

@[simp] theorem headIs_cons (p : Char → Bool) (ch : Char) (t : List Char) :
    headIs p (ch :: t) = p ch := rfl

/-- Looking at the next character is looking at the text to come. -/
theorem nextIs_eq (p : Char → Bool) (c : Cursor) : nextIs p c = headIs p c.rest := rfl

/-- Looking one character further is looking at the text behind the next. -/
theorem nthIs_one_eq (p : Char → Bool) (c : Cursor) : nthIs 1 p c = headIs p c.rest.tail := by
  unfold nthIs Cursor.peekNth headIs
  rw [List.head?_tail]

theorem nthIs_two_eq (p : Char → Bool) (c : Cursor) :
    nthIs 2 p c = headIs p c.rest.tail.tail := by
  unfold nthIs Cursor.peekNth headIs
  rw [List.head?_tail, List.getElem?_tail]

/-- Whether a run of digits goes on: a digit, or an underscore between two
digits. -/
def digitsGoOn (isDigit : Char → Bool) (afterDigit : Bool) : List Char → Bool
  | [] => false
  | ch :: t => isDigit ch || (ch == '_' && afterDigit && headIs isDigit t)

/-- Whether an exponent with at least one digit stands here. -/
def exponentFollows : List Char → Bool
  | [] => false
  | ch :: t =>
    (ch == 'e' || ch == 'E') && (headIs Char.isDigit t ||
      (headIs (fun sign => sign == '+' || sign == '-') t && headIs Char.isDigit t.tail))

/-- Whether `x` and a hexadecimal digit stand here. -/
def hexFollows : List Char → Bool
  | [] => false
  | ch :: t => (ch == 'x' || ch == 'X') && headIs isHexDigit t

/-- Whether `::` and a name stand here. -/
def pathFollows (t : List Char) : Bool :=
  headIs (· == ':') t && headIs (· == ':') t.tail && headIs isWordChar t.tail.tail

/-- Whether a decimal number goes on. Behind an exponent there are only digits
to come; before it there is at most one point, and an underscore does not stand
next to it. -/
def decimalGoesOn (text behind : List Char) : Bool :=
  if text.any fun ch => ch == 'e' || ch == 'E' then digitsGoOn Char.isDigit true behind
  else digitsGoOn Char.isDigit (text.getLast? != some '.') behind || exponentFollows behind
    || (!text.contains '.' && headIs (· == '.') behind)

/-- Whether a number goes on. A hexadecimal number has only digits to come, and
a zero may turn out to be the start of one. -/
def numberGoesOn (text behind : List Char) : Bool :=
  if text.any fun ch => ch == 'x' || ch == 'X' then digitsGoOn isHexDigit true behind
  else decimalGoesOn text behind || (text == ['0'] && hexFollows behind)

/-- Whether an identifier goes on: past its closing quote only by a second one,
past a bracket not at all, and as a bare word by a character of a word. A lone
`x` before a quote would start a blob. -/
def identifierGoesOn (text behind : List Char) : Bool :=
  if text.head? = some '\x22' then headIs (· == '\x22') behind
  else if text.head? = some '\x60' then headIs (· == '\x60') behind
  else if text.head? = some '[' then false
  else headIs isWordChar behind
    || ((text == ['x'] || text == ['X']) && headIs (· == '\x27') behind)

end Lexer

open Lexer in
/-- **Whether a token would not end here**, given its kind, its text and what
stands behind it. Tokens cut short by the end of the input end only there, and
the remaining kinds of malformed text are those that something else stands
behind. -/
def TokenKind.goesOn (kind : TokenKind) (text behind : List Char) : Bool :=
  match kind with
  | .whitespace => headIs isSpace behind
  | .lineComment => headIs (· != '\n') behind
  | .blockComment => !(['*', '/'].isSuffixOf (text.drop 2)) && !behind.isEmpty
  | .keyword _ => headIs isWordChar behind
  | .identifier => identifierGoesOn text behind
  | .string => headIs (· == '\x27') behind
  | .numeric => numberGoesOn text behind
  | .questionVariable => headIs Char.isDigit behind
  | .colonVariable | .atVariable => headIs isWordChar behind
  | .dollarVariable =>
    text.getLast? != some ')'
      && (headIs isWordChar behind || pathFollows behind || headIs (· == '(') behind)
  | .minus => headIs (fun ch => ch == '-' || ch == '>') behind
  | .arrow => headIs (· == '>') behind
  | .slash => headIs (· == '*') behind
  | .eq => headIs (· == '=') behind
  | .lt => headIs (fun ch => ch == '=' || ch == '>' || ch == '<') behind
  | .gt => headIs (fun ch => ch == '=' || ch == '>') behind
  | .bitOr => headIs (· == '|') behind
  | .dot => headIs Char.isDigit behind
  | .error (.unexpectedEnd _) => !behind.isEmpty
  | .error (.unexpectedCharacter ch) => ch == '!' && (behind.isEmpty || headIs (· == '=') behind)
  | .error (.invalidVariable _) => behind.isEmpty || headIs isWordChar behind
  | _ => false

namespace Lexer

open Cursor

/-! ## What a scanner does at a place -/

/-- **A scanner at a place.** It finds a value and reads `text`; the text does
not go on; and wherever the text comes next and does not go on, the scanner
finds the same value and reads the same text. -/
structure Munches {α : Type} (scanner : Cursor → α × Cursor)
    (goesOn : α → (text behind : List Char) → Bool) (c : Cursor) (text : List Char) : Prop where
  reads : Reads c text (scanner c).2
  stops : goesOn (scanner c).1 text (scanner c).2.rest = false
  again : ∀ (c' : Cursor) (behind : List Char), c'.rest = text ++ behind →
    goesOn (scanner c).1 text behind = false →
      (scanner c').1 = (scanner c).1 ∧ Reads c' text (scanner c').2

/-- A scanner that only moves, as one that finds nothing of interest. -/
abbrev moving (move : Cursor → Cursor) (c : Cursor) : Unit × Cursor := ((), move c)

namespace Munches

variable {α β : Type} {scanner : Cursor → α × Cursor}
  {goesOn : α → (text behind : List Char) → Bool} {c : Cursor} {text : List Char}

/-- Naming what was found anew changes nothing, if the new test agrees with the
old one. -/
theorem map (h : Munches scanner goesOn c text) (f : α → β)
    {goesOn' : β → (text behind : List Char) → Bool}
    (hf : ∀ behind, goesOn' (f (scanner c).1) text behind = goesOn (scanner c).1 text behind) :
    Munches (fun c => (f (scanner c).1, (scanner c).2)) goesOn' c text where
  reads := h.reads
  stops := (hf _).trans h.stops
  again c' behind hc' hstop := by
    obtain ⟨hvalue, hreads⟩ := h.again c' behind hc' ((hf behind).symm.trans hstop)
    exact ⟨congrArg f hvalue, hreads⟩

/-- A scanner that agrees with another wherever the text comes next and does not
go on. -/
theorem congr {scanner' : Cursor → α × Cursor} (h : Munches scanner goesOn c text)
    (heq : ∀ (c' : Cursor) (behind : List Char), c'.rest = text ++ behind →
      goesOn (scanner c).1 text behind = false → scanner' c' = scanner c') :
    Munches scanner' goesOn c text := by
  have hc := heq c (scanner c).2.rest h.reads.rest h.stops
  refine ⟨hc ▸ h.reads, hc ▸ h.stops, fun c' behind hc' hstop => ?_⟩
  rw [hc] at hstop
  rw [hc, heq c' behind hc' hstop]
  exact h.again c' behind hc' hstop

/-- **One scanner behind another.** The two texts together go on where the
first goes on into the second or the second goes on. -/
theorem bind {text' : List Char} {goesOn₁ goesOn₂ : β → (text behind : List Char) → Bool}
    (h : Munches scanner goesOn c text) (next : α → Cursor → β × Cursor)
    (h' : Munches (next (scanner c).1) goesOn₁ (scanner c).2 text')
    (hgoes : ∀ behind, goesOn₂ (next (scanner c).1 (scanner c).2).1 (text ++ text') behind
      = (goesOn (scanner c).1 text (text' ++ behind)
        || goesOn₁ (next (scanner c).1 (scanner c).2).1 text' behind)) :
    Munches (fun c => next (scanner c).1 (scanner c).2) goesOn₂ c (text ++ text') where
  reads := h.reads.trans h'.reads
  stops := by
    rw [hgoes, ← h'.reads.rest]
    exact Bool.or_eq_false_iff.2 ⟨h.stops, h'.stops⟩
  again c' behind hc' hstop := by
    rw [hgoes] at hstop
    obtain ⟨hfirst, hsecond⟩ := Bool.or_eq_false_iff.1 hstop
    have hc'' := hc'.trans (List.append_assoc _ _ _)
    obtain ⟨hvalue, hreads⟩ := h.again c' (text' ++ behind) hc'' hfirst
    obtain ⟨hvalue', hreads'⟩ := h'.again (scanner c').2 behind (hreads.rest_eq hc'') hsecond
    rw [← hvalue] at hvalue' hreads' ⊢
    exact ⟨by rw [hvalue', hvalue], hreads.trans hreads'⟩

/-- A scanner that reads nothing where nothing goes on. -/
theorem still (value : α) (h : goesOn value [] c.rest = false)
    (hstill : ∀ c' : Cursor, goesOn value [] c'.rest = false →
      (scanner c').1 = value ∧ Reads c' [] (scanner c').2) : Munches scanner goesOn c [] := by
  obtain ⟨rfl, hreads⟩ := hstill c h
  have hrest : (scanner c).2.rest = c.rest := hreads.rest.symm
  exact ⟨hreads, hrest ▸ h, fun c' behind hc' hstop => hstill c' (hc' ▸ hstop)⟩

/-- **A scanner that takes a character and leaves the rest to another.** -/
theorem step {scanner' : Cursor → α × Cursor}
    {goesOn' : α → (text behind : List Char) → Bool} {ch : Char} {r : List Char}
    (hr : c.rest = ch :: r) (h : Munches scanner' goesOn' c.advance text)
    (hgoes : ∀ behind, goesOn (scanner' c.advance).1 (ch :: text) behind
      = goesOn' (scanner' c.advance).1 text behind)
    (hstep : ∀ (c' : Cursor) (behind : List Char), c'.rest = ch :: (text ++ behind) →
      goesOn' (scanner' c.advance).1 text behind = false → scanner c' = scanner' c'.advance) :
    Munches scanner goesOn c (ch :: text) := by
  have hc : scanner c = scanner' c.advance := by
    refine hstep c (scanner' c.advance).2.rest ?_ h.stops
    rw [← h.reads.rest, rest_advance_cons hr, hr]
  refine ⟨?_, ?_, fun c' behind hc' hstop => ?_⟩
  · rw [hc]
    exact (reads_advance hr).trans h.reads
  · rw [hc, hgoes]
    exact h.stops
  · rw [hc, hgoes] at hstop
    rw [hc, hstep c' behind hc' hstop]
    obtain ⟨hvalue, hreads⟩ := h.again c'.advance behind (rest_advance_cons hc') hstop
    exact ⟨hvalue, (reads_advance hc').trans hreads⟩

end Munches

/-! ## Runs, brackets and quotes -/

/-- A text whose characters are all in a class and that does not go on is the
whole run. -/
theorem takeWhile_eq {p : Char → Bool} {w behind : List Char} (hw : ∀ ch ∈ w, p ch = true)
    (hb : headIs p behind = false) : (w ++ behind).takeWhile p = w := by
  rw [List.takeWhile_append_of_pos hw]
  cases behind with
  | nil => simp
  | cons ch t =>
    rw [headIs_cons] at hb
    rw [List.takeWhile_cons_of_neg (by rw [hb]; exact Bool.false_ne_true), List.append_nil]

/-- What is left behind a run starts with no character of the class. -/
theorem headIs_dropWhile (p : Char → Bool) (t : List Char) : headIs p (t.dropWhile p) = false := by
  have h := List.head?_dropWhile_not p t
  unfold headIs
  cases hd : (t.dropWhile p).head? with
  | none => rfl
  | some ch => rw [hd] at h; exact h

/-- A run of a class goes on by a character of the class. -/
theorem munches_eatWhile (p : Char → Bool) (c : Cursor) :
    Munches (moving (eatWhile p)) (fun _ _ behind => headIs p behind) c
      (c.rest.takeWhile p) where
  reads := reads_eatWhile p c
  stops := by
    show headIs p (c.eatWhile p).rest = false
    rw [rest_eatWhile]
    exact headIs_dropWhile p c.rest
  again c' behind hc' hstop := by
    have hread := reads_eatWhile p c'
    rw [hc', takeWhile_eq (fun ch hch => List.mem_takeWhile_imp hch) hstop] at hread
    exact ⟨rfl, hread⟩

/-- Whether a given character comes next. -/
theorem headIs_eq_false_iff {ch : Char} {t : List Char} :
    headIs (· == ch) t = false ↔ t.head? ≠ some ch := by
  cases t with
  | nil => simp
  | cons a t => simp

/-- Eating a character goes on only if it was not there. -/
theorem munches_eat (ch : Char) (c : Cursor) :
    Munches (fun c => c.eat ch) (fun eaten _ behind => !eaten && headIs (· == ch) behind) c
      (if (c.eat ch).1 then [ch] else []) := by
  rcases eat_cases c ch with ⟨hrest, heat⟩ | ⟨hrest, heat⟩
  · rw [heat]
    refine ⟨?_, ?_, fun c' behind hc' _ => ?_⟩
    · rw [heat]; exact reads_advance hrest
    · rw [heat]; rfl
    · rw [heat, eat_cons hc']; exact ⟨rfl, reads_advance hc'⟩
  · rw [heat]
    refine ⟨?_, ?_, fun c' behind hc' hstop => ?_⟩
    · rw [heat]; exact Reads.refl c
    · rw [heat]; exact headIs_eq_false_iff.2 hrest
    · rw [heat] at hstop ⊢
      have hne : c'.rest.head? ≠ some ch := hc' ▸ headIs_eq_false_iff.1 hstop
      rw [eat_of_ne hne]
      exact ⟨rfl, Reads.refl c'⟩

/-- **Reading to a closing bracket.** Closed, the text cannot go on; open, it
reaches to the end of the input. -/
theorem munches_closeBracket (close : Char) (c : Cursor) :
    ∃ text, Munches (closeBracket close) (fun closed _ behind => !closed && !behind.isEmpty) c text
      ∧ ((closeBracket close c).1 = true → text.getLast? = some close) := by
  refine ⟨_, (munches_eatWhile (· != close) c).bind (fun _ c => c.eat close)
    (munches_eat close _) fun behind => ?_, fun hclosed => ?_⟩
  · rcases (c.eatWhile (· != close)).eat close with ⟨_ | _, c'⟩
    · cases behind with
      | nil => rfl
      | cons a t => simp [bne]
    · simp
  · rw [closeBracket] at hclosed
    rw [if_pos hclosed, List.getLast?_concat]

/-! ### Block comments -/

theorem blockComment_nil {c : Cursor} (h : c.rest = []) : blockComment c = c := by
  unfold blockComment
  split
  · rfl
  · next hp => rw [peek_nil h] at hp; cases hp

theorem blockComment_close {c : Cursor} {t : List Char} (h : c.rest = '*' :: '/' :: t) :
    blockComment c = c.advance.advance := by
  have hadvance : c.advance.eat '/' = (true, c.advance.advance) := eat_cons (rest_advance_cons h)
  unfold blockComment
  split
  · next hp => rw [peek_cons h] at hp; cases hp
  · next ch hp =>
    rw [peek_cons h] at hp
    cases hp
    rw [if_pos rfl]
    split
    · next heq => rw [hadvance] at heq; cases heq; rfl
    · next heq => rw [hadvance] at heq; cases heq

theorem blockComment_cons {c : Cursor} {ch : Char} {t : List Char} (h : c.rest = ch :: t)
    (hopen : ¬ (ch = '*' ∧ t.head? = some '/')) : blockComment c = blockComment c.advance := by
  have hrest := rest_advance_cons h
  conv_lhs => unfold blockComment
  split
  · next hp => rw [peek_cons h] at hp; cases hp
  · next a hp =>
    rw [peek_cons h] at hp
    cases hp
    split
    · next hstar =>
      have heat : c.advance.eat '/' = (false, c.advance) :=
        eat_of_ne (by rw [hrest]; exact fun hslash => hopen ⟨hstar, hslash⟩)
      split
      · next heq => rw [heat] at heq; cases heq
      · next heq => rw [heat] at heq; cases heq; rfl
    · rfl

/-- **Reading a block comment.** Closed, it cannot go on; open, it reaches to
the end of the input. -/
theorem munches_blockComment (c : Cursor) :
    ∃ text, Munches (moving blockComment)
      (fun _ text behind => !(['*', '/'].isSuffixOf text) && !behind.isEmpty) c text := by
  generalize hr : c.rest = r
  induction r generalizing c with
  | nil =>
    refine ⟨[], Munches.still () (by rw [hr]; rfl) fun c' hstop => ⟨rfl, ?_⟩⟩
    have hnil : c'.rest = [] := by simpa using hstop
    rw [moving, blockComment_nil hnil]
    exact Reads.refl c'
  | cons ch r ih =>
    by_cases hclose : ch = '*' ∧ r.head? = some '/'
    · obtain ⟨rfl, hslash⟩ := hclose
      obtain ⟨t, rfl⟩ := List.head?_eq_some_iff.1 hslash
      refine ⟨['*', '/'], ?_, rfl, fun c' behind hc' _ => ⟨rfl, ?_⟩⟩
      · rw [moving, blockComment_close hr]
        exact (reads_advance hr).trans (reads_advance (rest_advance_cons hr))
      · rw [moving, blockComment_close hc']
        exact (reads_advance hc').trans (reads_advance (rest_advance_cons hc'))
    · obtain ⟨text, h⟩ := ih c.advance (rest_advance_cons hr)
      have hrest : r = text ++ (blockComment c.advance).rest :=
        (rest_advance_cons hr).symm.trans h.reads.rest
      -- the character before a text closes it only together with a slash
      have hsuffix : ['*', '/'].isSuffixOf (ch :: text) = ['*', '/'].isSuffixOf text := by
        rw [Bool.eq_iff_iff, List.isSuffixOf_iff_suffix, List.isSuffixOf_iff_suffix,
          List.suffix_cons_iff]
        refine ⟨fun hs => hs.resolve_left fun heq => hclose ?_, .inr⟩
        cases heq
        exact ⟨rfl, by rw [hrest]; rfl⟩
      refine ⟨ch :: text, h.step hr (fun behind => by rw [hsuffix]) fun c' behind hc' hstop => ?_⟩
      have hopen : ¬ (ch = '*' ∧ (text ++ behind).head? = some '/') := by
        rintro ⟨hstar, hslash⟩
        cases text with
        | nil =>
          have hnil : behind = [] := by simpa using hstop
          rw [hnil] at hslash
          cases hslash
        | cons a t => exact hclose ⟨hstar, by rw [hrest]; exact hslash⟩
      rw [moving, blockComment_cons hc' hopen]

/-! ### Quotes -/

theorem closeQuote_nil {q : Char} {c : Cursor} (h : c.rest = []) : closeQuote q c = (false, c) := by
  unfold closeQuote
  split
  · rfl
  · next hp => rw [peek_nil h] at hp; cases hp

theorem closeQuote_double {q : Char} {c : Cursor} {t : List Char} (h : c.rest = q :: q :: t) :
    closeQuote q c = closeQuote q c.advance.advance := by
  have heat : c.advance.eat q = (true, c.advance.advance) := eat_cons (rest_advance_cons h)
  conv_lhs => unfold closeQuote
  split
  · next hp => rw [peek_cons h] at hp; cases hp
  · next ch hp =>
    rw [peek_cons h] at hp
    cases hp
    rw [if_pos rfl]
    split
    · next heq => rw [heat] at heq; cases heq; rfl
    · next heq => rw [heat] at heq; cases heq

theorem closeQuote_close {q : Char} {c : Cursor} {t : List Char} (h : c.rest = q :: t)
    (ht : t.head? ≠ some q) : closeQuote q c = (true, c.advance) := by
  have heat : c.advance.eat q = (false, c.advance) := eat_of_ne (by rwa [rest_advance_cons h])
  unfold closeQuote
  split
  · next hp => rw [peek_cons h] at hp; cases hp
  · next ch hp =>
    rw [peek_cons h] at hp
    cases hp
    rw [if_pos rfl]
    split
    · next heq => rw [heat] at heq; cases heq
    · next heq => rw [heat] at heq; cases heq; rfl

theorem closeQuote_cons {q ch : Char} {c : Cursor} {t : List Char} (h : c.rest = ch :: t)
    (hch : ch ≠ q) : closeQuote q c = closeQuote q c.advance := by
  conv_lhs => unfold closeQuote
  split
  · next hp => rw [peek_cons h] at hp; cases hp
  · next a hp =>
    rw [peek_cons h] at hp
    cases hp
    rw [if_neg hch]

/-- Whether a quoted text goes on: closed, only by a second quote; open, by
anything. -/
def quoteGoesOn (q : Char) (closed : Bool) (_text behind : List Char) : Bool :=
  if closed then headIs (· == q) behind else !behind.isEmpty

/-- **Reading to a closing quote.** Closed, the text goes on only by a second
quote; open, it reaches to the end of the input. -/
theorem munches_closeQuote (q : Char) (c : Cursor) :
    ∃ text, Munches (closeQuote q) (quoteGoesOn q) c text := by
  generalize hn : c.rest.length = n
  induction n using Nat.strong_induction_on generalizing c with
  | _ n ih =>
    cases hr : c.rest with
    | nil =>
      refine ⟨[], Munches.still false (by rw [hr]; rfl) fun c' hstop => ?_⟩
      have hnil : c'.rest = [] := by simpa [quoteGoesOn] using hstop
      rw [closeQuote_nil hnil]
      exact ⟨rfl, Reads.refl c'⟩
    | cons ch r =>
      have hlen : n = r.length + 1 := by rw [← hn, hr]; rfl
      by_cases hch : ch = q
      · subst hch
        by_cases hdouble : r.head? = some ch
        · obtain ⟨t, rfl⟩ := List.head?_eq_some_iff.1 hdouble
          have hr' := rest_advance_cons hr
          obtain ⟨text, h⟩ := ih t.length (by rw [hlen, List.length_cons]; omega)
            c.advance.advance (by rw [rest_advance_cons hr'])
          have h' : Munches (fun c => closeQuote ch c.advance) (quoteGoesOn ch) c.advance
              (ch :: text) :=
            h.step hr' (fun _ => rfl) fun _ _ _ _ => rfl
          exact ⟨ch :: ch :: text,
            h'.step hr (fun _ => rfl) fun c' behind hc' _ => closeQuote_double hc'⟩
        · refine ⟨[ch], ?_, ?_, fun c' behind hc' hstop => ?_⟩
          · rw [closeQuote_close hr hdouble]; exact reads_advance hr
          · rw [closeQuote_close hr hdouble, rest_advance_cons hr]
            exact headIs_eq_false_iff.2 hdouble
          · rw [closeQuote_close hr hdouble] at hstop ⊢
            rw [closeQuote_close hc' (headIs_eq_false_iff.1 hstop)]
            exact ⟨rfl, reads_advance hc'⟩
      · obtain ⟨text, h⟩ := ih r.length (by omega) c.advance (by rw [rest_advance_cons hr])
        exact ⟨ch :: text,
          h.step hr (fun _ => rfl) fun c' behind hc' _ => closeQuote_cons hc' hch⟩

end Lexer

end TolerantSql
