import TolerantSql.Token.Basic
import TolerantSql.Token.Cursor

/-!
# Scanning the source into tokens

`nextToken` reads one token through a `Cursor`: it takes a character, and the
character decides which scanner reads on. Every character ends up in exactly
one token, blanks, comments and malformed text included, and a scanner never
returns to a place before the token it is reading. `tokenize` reads until the
end of the input and closes the list with the token for the end.

Each scanner starts behind the characters that chose it and returns the kind of
the token with the cursor behind it.
-/

namespace TolerantSql

namespace Lexer

/-! ## Classes of characters -/

def isSpace (c : Char) : Bool :=
  c == ' ' || c == '\t' || c == '\x0d' || c == '\n' || c == '\x0c'

/-- Characters of a bare word: ASCII letters and digits and the underscore. -/
def isWordChar (c : Char) : Bool := c.isAlphanum || c == '_'

/-- Characters that start a bare word. -/
def isWordStart (c : Char) : Bool := c.isAlpha || c == '_'

def isHexDigit (c : Char) : Bool :=
  c.isDigit || ('a' ≤ c && c ≤ 'f') || ('A' ≤ c && c ≤ 'F')

/-- Whether the next character is in a class. -/
def nextIs (p : Char → Bool) (c : Cursor) : Bool := c.peek.any p

/-- Whether the character `n` places behind the next one is in a class. -/
def nthIs (n : Nat) (p : Char → Bool) (c : Cursor) : Bool := (c.peekNth n).any p

/-! ## Scanners -/

/-- What a scanner finds: the kind of the token and the cursor behind it. -/
abbrev Scan := TokenKind × Cursor

/-- A token cut short by the end of the input. -/
def cutShort (inside : String) (c : Cursor) : Scan := (.error (.unexpectedEnd inside), c)

/-- Reads on behind the opening of a block comment, up to and including the
first closing or to the end of the input. -/
def blockComment (c : Cursor) : Cursor :=
  match _h : c.peek with
  | none => c
  | some ch =>
    if ch = '*' then
      match _h' : c.advance.eat '/' with
      | (true, c') => c'
      | (false, c') => blockComment c'
    else blockComment c.advance
termination_by c.rest.length
decreasing_by
  · have := c.advance.length_rest_eat_le '/'
    rw [_h'] at this
    exact Nat.lt_of_le_of_lt this (Cursor.length_rest_advance_lt _h)
  · exact Cursor.length_rest_advance_lt _h

/-- **Reads up to the closing quote.** A doubled quote stands for itself. The
flag says whether the quote was closed before the end of the input. -/
def closeQuote (quote : Char) (c : Cursor) : Bool × Cursor :=
  match _h : c.peek with
  | none => (false, c)
  | some ch =>
    if ch = quote then
      match _h' : c.advance.eat quote with
      | (true, c') => closeQuote quote c'
      | (false, c') => (true, c')
    else closeQuote quote c.advance
termination_by c.rest.length
decreasing_by
  · have := c.advance.length_rest_eat_le quote
    rw [_h'] at this
    exact Nat.lt_of_le_of_lt this (Cursor.length_rest_advance_lt _h)
  · exact Cursor.length_rest_advance_lt _h

/-- A token between quotes that are doubled inside. -/
def quoted (quote : Char) (kind : TokenKind) (inside : String) (c : Cursor) : Scan :=
  match closeQuote quote c with
  | (true, c) => (kind, c)
  | (false, c) => cutShort inside c

/-- Reads up to and including the first `close`, which nothing escapes. The
flag says whether there was one. -/
def closeBracket (close : Char) (c : Cursor) : Bool × Cursor :=
  (c.eatWhile (· != close)).eat close

/-- A name in square brackets. -/
def bracketed (c : Cursor) : Scan :=
  match closeBracket ']' c with
  | (true, c) => (.identifier, c)
  | (false, c) => cutShort "quoted identifier" c

/-- The rest of a blob literal behind its `x`. The first character that is
neither a hexadecimal digit nor the closing quote ends the malformed token, so
a closing quote behind it starts the next one. -/
def blob (c : Cursor) : Scan :=
  let c := c.advance.eatWhile isHexDigit
  match c.peek with
  | none => cutShort "blob literal" c
  | some ch => (if ch = '\x27' then .blob else .error .invalidBlob, c.advance)

/-- **Reads a run of digits.** A single underscore may stand between two
digits; one that is not followed by a digit is put back. -/
def digits (isDigit : Char → Bool) (afterDigit : Bool) (c : Cursor) : Cursor :=
  match _h : c.peek with
  | none => c
  | some ch =>
    if isDigit ch then digits isDigit true c.advance
    else if ch = '_' && afterDigit then
      if nextIs isDigit c.advance then digits isDigit false c.advance
      else c.advance.unread
    else c
termination_by c.rest.length
decreasing_by
  · exact Cursor.length_rest_advance_lt _h
  · exact Cursor.length_rest_advance_lt _h

/-- Reads an exponent if one follows. A marker without digits is put back and
read as a word later. -/
def exponent (c : Cursor) : Cursor :=
  if nextIs (fun ch => ch == 'e' || ch == 'E') c then
    let marked := c.advance
    if nextIs Char.isDigit marked then digits Char.isDigit false marked
    else if nextIs (fun ch => ch == '+' || ch == '-') marked && nthIs 1 Char.isDigit marked then
      digits Char.isDigit false marked.advance
    else marked.unread
  else c

/-- The rest of a number behind its first digit. -/
def number (first : Char) (c : Cursor) : Cursor :=
  if first == '0' && nextIs (fun ch => ch == 'x' || ch == 'X') c && nthIs 1 isHexDigit c then
    digits isHexDigit false c.advance
  else
    let whole := digits Char.isDigit true c
    match whole.eat '.' with
    | (true, c) => exponent (digits Char.isDigit false c)
    | (false, c) => exponent c

/-- The rest of a bare word that starts at `start`: a keyword or a name. -/
def word (start : Nat) (c : Cursor) : Scan :=
  let c := c.eatWhile isWordChar
  match Keyword.ofWord? (String.ofList (c.sliceFrom start)) with
  | some keyword => (.keyword keyword, c)
  | none => (.identifier, c)

/-- The name behind the sigil of a bind parameter. -/
def namedVariable (sigil : Char) (kind : TokenKind) (c : Cursor) : Scan :=
  match c.peek with
  | none => cutShort "variable" c
  | some ch =>
    if isWordChar ch then (kind, c.eatWhile isWordChar) else (.error (.invalidVariable sigil), c)

/-- Whether `::` and a name follow. -/
def atPathSegment (c : Cursor) : Bool :=
  nextIs (· == ':') c && nthIs 1 (· == ':') c && nthIs 2 isWordChar c

/-- Reads `::name` as often as it follows. -/
def pathSegments (c : Cursor) : Cursor :=
  if _h : atPathSegment c then pathSegments (c.advance.advance.eatWhile isWordChar) else c
termination_by c.rest.length
decreasing_by
  have hle := Cursor.length_rest_eatWhile_le isWordChar c.advance.advance
  simp only [Cursor.rest_advance, List.length_tail] at hle
  simp only [atPathSegment, nextIs, Cursor.peek, Bool.and_eq_true] at _h
  cases hr : c.rest with
  | nil => simp [hr] at _h
  | cons _ rest =>
    rw [hr, List.length_cons] at hle
    rw [List.length_cons]
    omega

/-- The rest of a `$` parameter: a name, `::` segments, and a suffix in
parentheses that reaches to the first closing one. -/
def dollarVariable (c : Cursor) : Scan :=
  match namedVariable '$' .dollarVariable c with
  | (.dollarVariable, c) =>
    match (pathSegments c).eat '(' with
    | (false, c) => (.dollarVariable, c)
    | (true, c) =>
      match closeBracket ')' c with
      | (true, c) => (.dollarVariable, c)
      | (false, c) => cutShort "variable" c
  | fault => fault

/-! ## Operators of more than one character -/

/-- The rest of a token that starts with a dash. -/
def dash (c : Cursor) : Scan :=
  match c.eat '-' with
  | (true, c) => (.lineComment, c.eatWhile (· != '\n'))
  | (false, c) =>
    match c.eat '>' with
    | (false, c) => (.minus, c)
    | (true, c) =>
      match c.eat '>' with
      | (true, c) => (.doubleArrow, c)
      | (false, c) => (.arrow, c)

/-- Takes `second` if it follows, and names the token by whether it did. -/
def either (second : Char) (long short : TokenKind) (c : Cursor) : Scan :=
  match c.eat second with
  | (true, c) => (long, c)
  | (false, c) => (short, c)

/-- The rest of a token that starts with a slash. -/
def slash (c : Cursor) : Scan :=
  match c.eat '*' with
  | (true, c) => (.blockComment, blockComment c)
  | (false, c) => (.slash, c)

/-- The rest of a token that starts with a less-than sign. -/
def less (c : Cursor) : Scan :=
  match c.eat '=' with
  | (true, c) => (.ltEq, c)
  | (false, c) =>
    match c.eat '>' with
    | (true, c) => (.ltGt, c)
    | (false, c) => either '<' .leftShift .lt c

/-- The rest of a token that starts with a greater-than sign. -/
def greater (c : Cursor) : Scan :=
  match c.eat '=' with
  | (true, c) => (.gtEq, c)
  | (false, c) => either '>' .rightShift .gt c

/-- The rest of a token that starts with an exclamation mark, which means
something only before an equals sign. -/
def bang (c : Cursor) : Scan :=
  match c.eat '=' with
  | (true, c) => (.notEq, c)
  | (false, c) =>
    if c.isAtEnd then cutShort "operator" c else (.error (.unexpectedCharacter '!'), c)

/-- A dot, or a number that starts with one. -/
def dot (c : Cursor) : Scan :=
  if nextIs Char.isDigit c then (.numeric, exponent (digits Char.isDigit false c)) else (.dot, c)

/-! ## One token -/

/-- The kind of a token that is one character long and needs no look at the
next one. -/
def single? (c : Char) : Option TokenKind :=
  if c = '(' then some .leftParen
  else if c = ')' then some .rightParen
  else if c = ';' then some .semicolon
  else if c = '+' then some .plus
  else if c = '*' then some .star
  else if c = '%' then some .percent
  else if c = ',' then some .comma
  else if c = '&' then some .bitAnd
  else if c = '~' then some .bitNot
  else none

/-- **The token that starts with `first`**, which the cursor has just passed;
`start` is the offset before it. -/
def scan (start : Nat) (first : Char) (c : Cursor) : Scan :=
  if isSpace first then (.whitespace, c.eatWhile isSpace)
  else if let some kind := single? first then (kind, c)
  else if first = '-' then dash c
  else if first = '/' then slash c
  else if first = '=' then either '=' .eqEq .eq c
  else if first = '<' then less c
  else if first = '>' then greater c
  else if first = '!' then bang c
  else if first = '|' then either '|' .concat .bitOr c
  else if first = '.' then dot c
  else if first = '\x27' then quoted '\x27' .string "string literal" c
  else if first = '\x22' then quoted '\x22' .identifier "quoted identifier" c
  else if first = '\x60' then quoted '\x60' .identifier "quoted identifier" c
  else if first = '[' then bracketed c
  else if (first = 'X' || first = 'x') && nextIs (· == '\x27') c then blob c
  else if first.isDigit then (.numeric, number first c)
  else if isWordStart first then word start c
  else if first = '?' then (.questionVariable, c.eatWhile Char.isDigit)
  else if first = ':' then namedVariable ':' .colonVariable c
  else if first = '@' then namedVariable '@' .atVariable c
  else if first = '$' then dollarVariable c
  else (.error (.unexpectedCharacter first), c)

/-- **Reads the next token.** At the end of the input it is the token for the
end, however often it is asked for. -/
def nextToken (c : Cursor) : Token × Cursor :=
  match c.bump with
  | (none, _) => (.eof c.pos, c)
  | (some first, behind) =>
    let (kind, after) := scan c.pos first behind
    (⟨kind, String.ofList (after.sliceFrom c.pos), ⟨c.pos, after.pos⟩⟩, after)

/-- The first `n` tokens read from the cursor. Past the end of the input the
token for the end repeats. -/
def firstTokens : (n : Nat) → Cursor → List Token
  | 0, _ => []
  | n + 1, c =>
    let (token, after) := nextToken c
    token :: firstTokens n after

/-- Reads tokens from the cursor up to the end of the input. Every token but
the last takes a character, so `fuel` is enough when there are no more than
`fuel` characters to come. -/
def tokensFrom : (fuel : Nat) → Cursor → List Token
  | 0, c => [.eof c.pos]
  | fuel + 1, c =>
    let (token, after) := nextToken c
    if token.isEof then [token] else token :: tokensFrom fuel after

end Lexer

/-- **The tokens of a source text**, the last of which is its end. -/
def tokenize (source : String) : List Token :=
  let c := Cursor.ofString source
  Lexer.tokensFrom c.rest.length c

end TolerantSql
