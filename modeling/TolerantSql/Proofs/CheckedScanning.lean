import TolerantSql.Proofs.CheckedCursor
import TolerantSql.Token.Lexer

/-!
# Scanning in range

The scanner once more, as a computation on bytes: `Checked.nextToken` notes where
the token begins and reads it with the operations of a byte cursor alone, one
after the other and character by character. What it may not do, on pain of having
no result, is what the operations check: slice out of range, stop in the middle of
a character, go back before the beginning of the token, go round without taking a
character.

Each part of it has the same name as the part of the scanner it stands for, and
runs as that one does (`Checked.runs_quoted`, `Checked.runs_digits`, …). A part
without a loop is followed through its text. A loop is followed along the
recursion of the scanner's own loop, or of the characters to come where the
scanner takes a run of characters at once. Two parts put a character back: digits
an underscore and exponents their marker, and both have just taken it
(`Checked.runs_unread_advance`).

So reading any number of tokens has a result, and it is the scanner's
(`Checked.run_firstTokens`).
-/

namespace TolerantSql

namespace Lexer

variable {c : Cursor}

/-- At the end, no closing bracket is found. -/
theorem closeBracket_of_peek_eq_none (close : Char) (hpeek : c.peek = none) :
    closeBracket close c = (false, c) := by
  unfold closeBracket
  rw [Cursor.eatWhile_eq, hpeek, Option.any_none, if_neg Bool.false_ne_true, Cursor.eat, hpeek,
    if_neg (by simp)]

/-- What reading up to a closing bracket begins with. -/
theorem closeBracket_of_peek_eq_some {ch : Char} (close : Char) (hpeek : c.peek = some ch) :
    closeBracket close c
      = if ch = close then (true, c.advance) else closeBracket close c.advance := by
  unfold closeBracket
  rw [Cursor.eatWhile_eq, hpeek, Option.any_some]
  by_cases hch : ch = close
  · rw [if_pos hch, if_neg (by simp [hch]), Cursor.eat, if_pos (hch ▸ hpeek)]
  · rw [if_neg hch, if_pos (by simp [hch])]

end Lexer

namespace Checked

open Lexer (isSpace isWordChar isWordStart isHexDigit single?)

/-! ## Scanners -/

/-- Whether the next character is in a class. -/
def nextIs (p : Char → Bool) : Checked Bool := do
  pure ((← peek).any p)

/-- Whether the character `n` places behind the next one is in a class. -/
def nthIs (n : Nat) (p : Char → Bool) : Checked Bool := do
  pure ((← peekNth n).any p)

/-- A token cut short by the end of the input. -/
def cutShort (inside : String) : Checked TokenKind := pure (.error (.unexpectedEnd inside))

/-- Reads on behind the opening of a block comment. -/
def blockComment : Checked Unit :=
  loop (fun _ => do
    match ← bump with
    | none => pure (.done ())
    | some ch =>
      if ch = '*' then
        if ← eat '/' then pure (.done ()) else pure (.again ())
      else pure (.again ())) ()

/-- Reads up to the closing quote, which stands for itself where it is doubled. -/
def closeQuote (quote : Char) : Checked Bool :=
  loop (fun _ => do
    match ← bump with
    | none => pure (.done false)
    | some ch =>
      if ch = quote then
        if ← eat quote then pure (.again ()) else pure (.done true)
      else pure (.again ())) ()

def quoted (quote : Char) (kind : TokenKind) (inside : String) : Checked TokenKind := do
  if ← closeQuote quote then pure kind else cutShort inside

/-- Takes characters up to and including the first `close`. -/
def closeBracket (close : Char) : Checked Bool :=
  loop (fun _ => do
    match ← bump with
    | none => pure (.done false)
    | some ch => if ch = close then pure (.done true) else pure (.again ())) ()

def bracketed : Checked TokenKind := do
  if ← closeBracket ']' then pure .identifier else cutShort "quoted identifier"

/-- Takes hexadecimal digits and the character behind them. -/
def closeBlob : Checked TokenKind :=
  loop (fun _ => do
    match ← bump with
    | none => pure (.done (.error (.unexpectedEnd "blob literal")))
    | some ch =>
      if isHexDigit ch then pure (.again ())
      else pure (.done (if ch = '\x27' then .blob else .error .invalidBlob))) ()

def blob : Checked TokenKind := do
  let _ ← bump
  closeBlob

/-- Reads a run of digits, and puts an underscore back that no digit follows. -/
def digits (isDigit : Char → Bool) : (afterDigit : Bool) → Checked Unit :=
  loop fun afterDigit => do
    match ← peek with
    | none => pure (.done ())
    | some ch =>
      if isDigit ch then
        let _ ← bump
        pure (.again true)
      else if ch = '_' && afterDigit then
        let _ ← bump
        if ← nextIs isDigit then pure (.again false)
        else
          unread
          pure (.done ())
      else pure (.done ())

/-- Reads an exponent, and puts its marker back if no digits follow. -/
def exponent : Checked Unit := do
  if ← nextIs (fun ch => ch == 'e' || ch == 'E') then
    let _ ← bump
    if ← nextIs Char.isDigit then digits Char.isDigit false
    else if (← nextIs (fun ch => ch == '+' || ch == '-')) && (← nthIs 1 Char.isDigit) then
      let _ ← bump
      digits Char.isDigit false
    else unread
  else pure ()

def number (first : Char) : Checked Unit := do
  if first == '0' && (← nextIs (fun ch => ch == 'x' || ch == 'X')) && (← nthIs 1 isHexDigit) then
    let _ ← bump
    digits isHexDigit false
  else
    digits Char.isDigit true
    if ← eat '.' then
      digits Char.isDigit false
      exponent
    else exponent

/-- Reads a bare word and looks up the text of the token. -/
def word : Checked TokenKind := do
  eatWhile isWordChar
  match Keyword.ofWord? (String.ofList (← sliceFromStart)) with
  | some keyword => pure (.keyword keyword)
  | none => pure .identifier

def namedVariable (sigil : Char) (kind : TokenKind) : Checked TokenKind := do
  match ← peek with
  | none => cutShort "variable"
  | some ch =>
    if isWordChar ch then
      eatWhile isWordChar
      pure kind
    else pure (.error (.invalidVariable sigil))

def atPathSegment : Checked Bool := do
  pure ((← nextIs (· == ':')) && (← nthIs 1 (· == ':')) && (← nthIs 2 isWordChar))

def pathSegments : Checked Unit :=
  loop (fun _ => do
    if ← atPathSegment then
      let _ ← bump
      let _ ← bump
      eatWhile isWordChar
      pure (.again ())
    else pure (.done ())) ()

def dollarVariable : Checked TokenKind := do
  match ← namedVariable '$' .dollarVariable with
  | .dollarVariable =>
    pathSegments
    if ← eat '(' then
      if ← closeBracket ')' then pure .dollarVariable else cutShort "variable"
    else pure .dollarVariable
  | fault => pure fault

/-- Takes `second` if it follows, and names the token by whether it did. -/
def either (second : Char) (long short : TokenKind) : Checked TokenKind := do
  if ← eat second then pure long else pure short

def dash : Checked TokenKind := do
  if ← eat '-' then
    eatWhile (· != '\n')
    pure .lineComment
  else if ← eat '>' then either '>' .doubleArrow .arrow
  else pure .minus

def slash : Checked TokenKind := do
  if ← eat '*' then
    blockComment
    pure .blockComment
  else pure .slash

def less : Checked TokenKind := do
  if ← eat '=' then pure .ltEq
  else if ← eat '>' then pure .ltGt
  else either '<' .leftShift .lt

def greater : Checked TokenKind := do
  if ← eat '=' then pure .gtEq else either '>' .rightShift .gt

def bang : Checked TokenKind := do
  if ← eat '=' then pure .notEq
  else if ← isAtEnd then cutShort "operator"
  else pure (.error (.unexpectedCharacter '!'))

def dot : Checked TokenKind := do
  if ← nextIs Char.isDigit then
    digits Char.isDigit false
    exponent
    pure .numeric
  else pure .dot

/-- The token that starts with `first`, which was just taken. -/
def scan (first : Char) : Checked TokenKind := do
  if isSpace first then
    eatWhile isSpace
    pure .whitespace
  else if let some kind := single? first then pure kind
  else if first = '-' then dash
  else if first = '/' then slash
  else if first = '=' then either '=' .eqEq .eq
  else if first = '<' then less
  else if first = '>' then greater
  else if first = '!' then bang
  else if first = '|' then either '|' .concat .bitOr
  else if first = '.' then dot
  else if first = '\x27' then quoted '\x27' .string "string literal"
  else if first = '\x22' then quoted '\x22' .identifier "quoted identifier"
  else if first = '\x60' then quoted '\x60' .identifier "quoted identifier"
  else if first = '[' then bracketed
  else if (first = 'X' || first = 'x') && (← nextIs (· == '\x27')) then blob
  else if first.isDigit then
    number first
    pure .numeric
  else if isWordStart first then word
  else if first = '?' then
    eatWhile Char.isDigit
    pure .questionVariable
  else if first = ':' then namedVariable ':' .colonVariable
  else if first = '@' then namedVariable '@' .atVariable
  else if first = '$' then dollarVariable
  else pure (.error (.unexpectedCharacter first))

/-- Reads the token that begins at the place. -/
def readToken : Checked Token := do
  match ← bump with
  | none => pure (.eof (← get).start)
  | some first =>
    let kind ← scan first
    let text ← sliceFromStart
    let c ← get
    pure ⟨kind, String.ofList text, ⟨c.start, c.pos⟩⟩

/-- **Reads the next token**: from here on, no place before this one will do. -/
def nextToken : Checked Token := do
  modify fun c => { c with start := c.pos }
  readToken

/-- Reads `n` tokens. -/
def firstTokens : Nat → Checked (List Token)
  | 0 => pure []
  | n + 1 => do
    let token ← nextToken
    pure (token :: (← firstTokens n))

/-! ## The scanners stay in range -/

section Runs

open Cursor

variable {α : Type} {input : String} {s c : Cursor}

/-- The same choice with its ways in the other order. -/
theorem Runs.branch_else {m : Checked Bool} {m₁ m₂ : Checked α} {r : Bool × Cursor}
    {f g : Cursor → α × Cursor} : Runs input s m c r →
    (∀ {c'}, Behind input s c' → Runs input s m₁ c' (f c')) →
    (∀ {c'}, Behind input s c' → Runs input s m₂ c' (g c')) →
    Runs input s (m >>= fun b => if b = true then m₁ else m₂) c
      (match r with
        | (false, c) => g c
        | (true, c) => f c) := by
  intro h ht hf
  have hbranch := h.branch ht hf
  obtain ⟨_ | _, c'⟩ := r <;> exact hbranch

theorem runs_nextIs (p : Char → Bool) (h : Behind input s c) :
    Runs input s (nextIs p) c (Lexer.nextIs p c, c) :=
  (runs_peek h).bind fun h => .pure h _

theorem runs_nthIs (n : Nat) (p : Char → Bool) (h : Behind input s c) :
    Runs input s (nthIs n p) c (Lexer.nthIs n p c, c) :=
  (runs_peekNth h n).bind fun h => .pure h _

/-! ### Quotes, brackets and comments -/

theorem runs_blockComment (h : Behind input s c) :
    Runs input s blockComment c ((), Lexer.blockComment c) := by
  fun_induction Lexer.blockComment c with
  | case1 c hpeek => exact .loop_done ((runs_bump_none h hpeek).bind fun h => .pure h _)
  | case2 c c' heat hpeek =>
    refine .loop_done ((runs_bump_some h hpeek).bind fun h => ?_)
    exact ((runs_eat h '/').of_eq heat).bind fun h => .pure h _
  | case3 c c' heat hpeek ih =>
    refine .loop_again ?_ (Nat.lt_of_lt_of_le (pos_lt_advance hpeek) (pos_le_eat heat)) ih
    refine (runs_bump_some h hpeek).bind fun h => ?_
    exact ((runs_eat h '/').of_eq heat).bind fun h => .pure h _
  | case4 c ch hpeek hne ih =>
    refine .loop_again ?_ (pos_lt_advance hpeek) ih
    exact (runs_bump_some h hpeek).bind fun h => .neg hne (.pure h _)

theorem runs_closeQuote (quote : Char) (h : Behind input s c) :
    Runs input s (closeQuote quote) c (Lexer.closeQuote quote c) := by
  fun_induction Lexer.closeQuote quote c with
  | case1 c hpeek => exact .loop_done ((runs_bump_none h hpeek).bind fun h => .pure h _)
  | case2 c c' heat hpeek ih =>
    refine .loop_again ?_ (Nat.lt_of_lt_of_le (pos_lt_advance hpeek) (pos_le_eat heat)) ih
    refine (runs_bump_some h hpeek).bind fun h => .pos rfl ?_
    exact ((runs_eat h quote).of_eq heat).bind fun h => .pure h _
  | case3 c c' heat hpeek =>
    refine .loop_done ((runs_bump_some h hpeek).bind fun h => .pos rfl ?_)
    exact ((runs_eat h quote).of_eq heat).bind fun h => .pure h _
  | case4 c ch hpeek hne ih =>
    refine .loop_again ?_ (pos_lt_advance hpeek) ih
    exact (runs_bump_some h hpeek).bind fun h => .neg hne (.pure h _)

theorem runs_quoted (quote : Char) (kind : TokenKind) (inside : String) (h : Behind input s c) :
    Runs input s (quoted quote kind inside) c (Lexer.quoted quote kind inside c) :=
  (runs_closeQuote quote h).branch (fun h => .pure h _) fun h => .pure h _

theorem runs_closeBracket (close : Char) {c : Cursor} (h : Behind input s c) :
    Runs input s (closeBracket close) c (Lexer.closeBracket close c) := by
  cases hpeek : c.peek with
  | none =>
    rw [Lexer.closeBracket_of_peek_eq_none close hpeek]
    exact .loop_done ((runs_bump_none h hpeek).bind fun h => .pure h _)
  | some ch =>
    have := length_rest_advance_lt hpeek
    rw [Lexer.closeBracket_of_peek_eq_some close hpeek]
    by_cases hch : ch = close
    · rw [if_pos hch]
      exact .loop_done ((runs_bump_some h hpeek).bind fun h => .pos hch (.pure h _))
    · rw [if_neg hch]
      refine .loop_again ?_ (pos_lt_advance hpeek) fun h => runs_closeBracket close h
      exact (runs_bump_some h hpeek).bind fun h => .neg hch (.pure h _)
termination_by c.rest.length

theorem runs_bracketed (h : Behind input s c) :
    Runs input s bracketed c (Lexer.bracketed c) :=
  (runs_closeBracket ']' h).branch (fun h => .pure h _) fun h => .pure h _

/-- The end of a blob literal: its digits one by one, or all at once. -/
theorem runs_closeBlob {c : Cursor} (h : Behind input s c) :
    Runs input s closeBlob c
      (match (c.eatWhile isHexDigit).peek with
        | none => Lexer.cutShort "blob literal" (c.eatWhile isHexDigit)
        | some ch => (if ch = '\x27' then .blob else .error .invalidBlob,
            (c.eatWhile isHexDigit).advance)) := by
  rw [Cursor.eatWhile_eq]
  cases hpeek : c.peek with
  | none =>
    rw [Option.any_none, if_neg Bool.false_ne_true, hpeek]
    exact .loop_done ((runs_bump_none h hpeek).bind fun h => .pure h _)
  | some ch =>
    have := length_rest_advance_lt hpeek
    rw [Option.any_some]
    by_cases hhex : isHexDigit ch = true
    · rw [if_pos hhex]
      refine .loop_again ?_ (pos_lt_advance hpeek) fun h => runs_closeBlob h
      exact (runs_bump_some h hpeek).bind fun h => .pos hhex (.pure h _)
    · rw [if_neg hhex, hpeek]
      exact .loop_done ((runs_bump_some h hpeek).bind fun h => .neg hhex (.pure h _))
termination_by c.rest.length

theorem runs_blob (h : Behind input s c) : Runs input s blob c (Lexer.blob c) :=
  (runs_bump h).bind runs_closeBlob

/-! ### Numbers -/

/-- **Reading digits stays in range**: the underscore that is put back was taken
here. -/
theorem runs_digits (isDigit : Char → Bool) (afterDigit : Bool) (h : Behind input s c) :
    Runs input s (digits isDigit afterDigit) c
      ((), Lexer.digits isDigit afterDigit c) := by
  fun_induction Lexer.digits isDigit afterDigit c with
  | case1 afterDigit c hpeek =>
    exact .loop_done ((runs_peek_of h hpeek).bind fun h => .pure h _)
  | case2 afterDigit c ch hpeek hdigit ih =>
    refine .loop_again ?_ (pos_lt_advance hpeek) ih
    refine (runs_peek_of h hpeek).bind fun h => .pos hdigit ?_
    exact (runs_bump h).bind fun h => .pure h _
  | case3 afterDigit c ch hpeek hdigit hunder hnext ih =>
    refine .loop_again ?_ (pos_lt_advance hpeek) ih
    refine (runs_peek_of h hpeek).bind fun h => .neg hdigit (.pos hunder ?_)
    refine (runs_bump h).bind fun h => (runs_nextIs isDigit h).bind fun h => ?_
    exact .pos hnext (.pure h _)
  | case4 afterDigit c ch hpeek hdigit hunder hnext =>
    refine .loop_done ((runs_peek_of h hpeek).bind fun h => .neg hdigit (.pos hunder ?_))
    refine (runs_bump h).bind fun htaken => (runs_nextIs isDigit htaken).bind fun _ => ?_
    exact .neg hnext ((runs_unread_advance h hpeek).bind fun h => .pure h _)
  | case5 afterDigit c ch hpeek hdigit hunder =>
    exact .loop_done ((runs_peek_of h hpeek).bind fun h => .neg hdigit (.neg hunder (.pure h _)))

/-- **Reading an exponent stays in range**: the marker that is put back was taken
here. -/
theorem runs_exponent (h : Behind input s c) :
    Runs input s exponent c ((), Lexer.exponent c) := by
  refine (runs_nextIs _ h).bind fun h => .ite_place (fun hmark => ?_) fun _ => .pure h ()
  obtain ⟨ch, hpeek, -⟩ := (Option.any_eq_true _ _).1 hmark
  refine (runs_bump h).bind fun hmarked => (runs_nextIs _ hmarked).bind fun hmarked => ?_
  refine .ite_place (fun _ => runs_digits _ _ hmarked) fun _ => ?_
  refine (runs_nextIs _ hmarked).bind fun hmarked => (runs_nthIs 1 _ hmarked).bind fun hmarked => ?_
  refine .ite_place (fun _ => ?_) fun _ => runs_unread_advance h hpeek
  exact (runs_bump hmarked).bind fun h => runs_digits _ _ h

theorem runs_number (first : Char) (h : Behind input s c) :
    Runs input s (number first) c ((), Lexer.number first c) := by
  refine (runs_nextIs _ h).bind fun h => (runs_nthIs 1 _ h).bind fun h => ?_
  refine .ite_place (fun _ => (runs_bump h).bind fun h => runs_digits _ _ h) fun _ => ?_
  refine (runs_digits _ _ h).bind fun h => ?_
  have hpoint := runs_eat h '.'
  dsimp only
  generalize (Lexer.digits Char.isDigit true c).eat '.' = r at hpoint ⊢
  obtain ⟨_ | _, c'⟩ := r
  · exact hpoint.bind fun h => runs_exponent h
  · exact hpoint.bind fun h => (runs_digits _ _ h).bind fun h => runs_exponent h

theorem runs_dot (h : Behind input s c) : Runs input s dot c (Lexer.dot c) := by
  refine (runs_nextIs _ h).bind fun h => .ite (fun _ => ?_) fun _ => .pure h _
  exact (runs_digits _ _ h).bind fun h => (runs_exponent h).bind fun h => .pure h _

/-! ### Words and bind parameters -/

/-- **Looking up the text of a word stays in range.** -/
theorem runs_word (h : Behind input s c) : Runs input s word c (Lexer.word s.pos c) := by
  refine (runs_eatWhile _ h).bind fun h => (runs_sliceFromStart h).bind fun h => ?_
  unfold Lexer.word
  dsimp only
  cases Keyword.ofWord? (String.ofList ((c.eatWhile isWordChar).sliceFrom s.pos)) with
  | none => exact .pure h _
  | some keyword => exact .pure h _

theorem runs_namedVariable (sigil : Char) (kind : TokenKind) (h : Behind input s c) :
    Runs input s (namedVariable sigil kind) c (Lexer.namedVariable sigil kind c) := by
  refine (runs_peek h).bind fun h => ?_
  unfold Lexer.namedVariable
  cases c.peek with
  | none => exact .pure h _
  | some ch =>
    exact .ite (fun _ => (runs_eatWhile _ h).bind fun h => .pure h _) fun _ => .pure h _

theorem runs_atPathSegment (h : Behind input s c) :
    Runs input s atPathSegment c (Lexer.atPathSegment c, c) :=
  (runs_nextIs _ h).bind fun h => (runs_nthIs 1 _ h).bind fun h =>
    (runs_nthIs 2 _ h).bind fun h => .pure h _

/-- Reading a segment of a path moves on. -/
theorem pos_lt_pathSegment (hpath : Lexer.atPathSegment c = true) :
    c.pos < (c.advance.advance.eatWhile isWordChar).pos := by
  unfold Lexer.atPathSegment at hpath
  rw [Bool.and_eq_true, Bool.and_eq_true] at hpath
  obtain ⟨ch, hpeek, -⟩ := (Option.any_eq_true _ _).1 hpath.1.1
  calc c.pos < c.advance.pos := pos_lt_advance hpeek
    _ ≤ c.advance.advance.pos := pos_le_advance _
    _ ≤ _ := (reads_eatWhile isWordChar _).pos_le

theorem runs_pathSegments (h : Behind input s c) :
    Runs input s pathSegments c ((), Lexer.pathSegments c) := by
  fun_induction Lexer.pathSegments c with
  | case1 c hpath ih =>
    refine .loop_again ?_ (pos_lt_pathSegment hpath) ih
    refine (runs_atPathSegment h).bind fun h => .pos hpath ?_
    refine (runs_bump h).bind fun h => (runs_bump h).bind fun h => ?_
    exact (runs_eatWhile _ h).bind fun h => .pure h _
  | case2 c hpath =>
    exact .loop_done ((runs_atPathSegment h).bind fun h => .neg hpath (.pure h _))

theorem runs_dollarVariable (h : Behind input s c) :
    Runs input s dollarVariable c (Lexer.dollarVariable c) := by
  have hname := runs_namedVariable '$' .dollarVariable h
  unfold Lexer.dollarVariable
  generalize Lexer.namedVariable '$' .dollarVariable c = r at hname ⊢
  obtain ⟨kind, c'⟩ := r
  refine hname.bind fun h => ?_
  cases kind with
  | dollarVariable =>
    refine (runs_pathSegments h).bind fun h =>
      (runs_eat h '(').branch_else (fun h => ?_) fun h => ?_
    · exact (runs_closeBracket ')' h).branch (fun h => .pure h _) fun h => .pure h _
    · exact .pure h _
  | _ => exact .pure h _

/-! ### Operators -/

theorem runs_either (second : Char) (long short : TokenKind) (h : Behind input s c) :
    Runs input s (either second long short) c (Lexer.either second long short c) :=
  (runs_eat h second).branch (fun h => .pure h _) fun h => .pure h _

theorem runs_dash (h : Behind input s c) : Runs input s dash c (Lexer.dash c) := by
  refine (runs_eat h '-').branch (fun h => ?_) fun h => ?_
  · exact (runs_eatWhile _ h).bind fun h => .pure h _
  · exact (runs_eat h '>').branch_else (fun h => runs_either '>' _ _ h) fun h => .pure h _

theorem runs_slash (h : Behind input s c) : Runs input s slash c (Lexer.slash c) := by
  refine (runs_eat h '*').branch (fun h => ?_) fun h => .pure h _
  exact (runs_blockComment h).bind fun h => .pure h _

theorem runs_less (h : Behind input s c) : Runs input s less c (Lexer.less c) := by
  refine (runs_eat h '=').branch (fun h => .pure h _) fun h => ?_
  exact (runs_eat h '>').branch (fun h => .pure h _) fun h => runs_either '<' _ _ h

theorem runs_greater (h : Behind input s c) : Runs input s greater c (Lexer.greater c) :=
  (runs_eat h '=').branch (fun h => .pure h _) fun h => runs_either '>' _ _ h

theorem runs_bang (h : Behind input s c) : Runs input s bang c (Lexer.bang c) := by
  refine (runs_eat h '=').branch (fun h => .pure h _) fun h => ?_
  exact (runs_isAtEnd h).bind fun h => .ite (fun _ => .pure h _) fun _ => .pure h _

/-! ### One token -/

/-- **The scanner stays in range** inside a token. -/
theorem runs_scan (first : Char) (h : Behind input s c) :
    Runs input s (scan first) c (Lexer.scan s.pos first c) := by
  unfold scan Lexer.scan
  refine .ite (fun _ => (runs_eatWhile _ h).bind fun h => .pure h _) fun _ => ?_
  cases single? first with
  | some kind => exact .pure h kind
  | none =>
    refine .ite (fun _ => runs_dash h) fun _ => ?_
    refine .ite (fun _ => runs_slash h) fun _ => ?_
    refine .ite (fun _ => runs_either '=' _ _ h) fun _ => ?_
    refine .ite (fun _ => runs_less h) fun _ => ?_
    refine .ite (fun _ => runs_greater h) fun _ => ?_
    refine .ite (fun _ => runs_bang h) fun _ => ?_
    refine .ite (fun _ => runs_either '|' _ _ h) fun _ => ?_
    refine .ite (fun _ => runs_dot h) fun _ => ?_
    refine .ite (fun _ => runs_quoted _ _ _ h) fun _ => ?_
    refine .ite (fun _ => runs_quoted _ _ _ h) fun _ => ?_
    refine .ite (fun _ => runs_quoted _ _ _ h) fun _ => ?_
    refine .ite (fun _ => runs_bracketed h) fun _ => ?_
    refine (runs_nextIs _ h).bind fun h => .ite (fun _ => runs_blob h) fun _ => ?_
    refine .ite (fun _ => (runs_number first h).bind fun h => .pure h _) fun _ => ?_
    refine .ite (fun _ => runs_word h) fun _ => ?_
    refine .ite (fun _ => (runs_eatWhile _ h).bind fun h => .pure h _) fun _ => ?_
    refine .ite (fun _ => runs_namedVariable ':' _ h) fun _ => ?_
    refine .ite (fun _ => runs_namedVariable '@' _ h) fun _ => ?_
    exact .ite (fun _ => runs_dollarVariable h) fun _ => .pure h _

/-- **Reading a token stays in range**, and never leaves the token. -/
theorem runs_readToken (h : StandsIn input c) :
    Runs input c readToken c (Lexer.nextToken c) := by
  unfold Lexer.nextToken Cursor.bump
  cases hpeek : c.peek with
  | none => exact (runs_bump_none (.refl h) hpeek).bind fun h => ⟨rfl, h⟩
  | some first =>
    refine (runs_bump_some (.refl h) hpeek).bind fun h => (runs_scan first h).bind fun h => ?_
    exact (runs_sliceFromStart h).bind fun h => ⟨rfl, h⟩

/-- **Reading tokens stays in range**: each begins where the one before it ended. -/
theorem run_firstTokens (n : Nat) (start : Nat) (h : StandsIn input c) :
    (firstTokens n).run' (c.toBytes input start) = some (Lexer.firstTokens n c) := by
  induction n generalizing c start with
  | zero => rfl
  | succ n ih =>
    have hread := runs_readToken h
    have hnext : nextToken (c.toBytes input start)
        = some ((Lexer.nextToken c).1, (Lexer.nextToken c).2.toBytes input c.pos) := hread.run
    obtain ⟨⟨tokens, b⟩, hrest, htokens⟩ := Option.map_eq_some_iff.1 (ih c.pos hread.behind.here)
    show ((nextToken (c.toBytes input start)).bind fun x =>
      (firstTokens n x.2).bind fun y => some (x.1 :: y.1, y.2)).map Prod.fst = _
    rw [hnext, Option.bind_some, hrest]
    exact congrArg (fun rest => some ((Lexer.nextToken c).1 :: rest)) htokens

end Runs

end Checked

end TolerantSql
