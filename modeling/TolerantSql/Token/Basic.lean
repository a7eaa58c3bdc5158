import TolerantSql.Span
import TolerantSql.Token.Kind

/-!
# Tokens

A token is a piece of the source: its kind, its text as it was written, and
where it stands. The end of the input is a token too, with no text and an empty
span, so that a parser always has a current token.
-/

namespace TolerantSql

/-- **A piece of source text with its kind and place.** -/
structure Token where
  kind : TokenKind
  /-- The text as written; empty at the end of the input. -/
  text : String
  span : Span
  deriving DecidableEq

namespace Token

/-- The end of the input at an offset. -/
def eof (offset : Nat) : Token := ⟨.eof, "", .empty offset⟩

def isEof (t : Token) : Bool := t.kind.isEof

/-- The text as written, and nothing at the end of the input. -/
def lexeme? (t : Token) : Option String := if t.isEof then none else some t.text

/-- The keyword of a keyword token. -/
def keyword? (t : Token) : Option Keyword := t.kind.keyword?

/-- Whether the token is an identifier that reads as `word`, the case of ASCII
letters ignored. Some words matter to the grammar without being reserved. -/
def isWord (t : Token) (word : String) : Bool :=
  t.kind == .identifier && t.text.toUpper == word.toUpper

/-- The text as written, or `EOF`. -/
def render (t : Token) : String := t.lexeme?.getD "EOF"

/-- The same token, `offset` bytes further on. -/
def shift (offset : Nat) (t : Token) : Token := { t with span := t.span.shift offset }

end Token

end TolerantSql
