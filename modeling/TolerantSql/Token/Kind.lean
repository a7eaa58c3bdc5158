import TolerantSql.Keyword
import TolerantSql.Token.LexError

/-!
# Token kinds

The kind of a token is what the grammar and the highlighter decide on. Every
kind the scanner can produce is a constructor of `TokenKind`; one more
constructor, `extension`, leaves room for kinds made elsewhere, kept apart by
the name of the space they belong to.

`TokenKind.needsSpace` is the rule for writing two tokens next to each other:
it asks for a space where the two would be read back as something else, two
words running together or a comment being opened.
-/

namespace TolerantSql

/-- A token kind made outside the scanner. Kinds of different spaces differ,
whatever their codes. -/
structure ExtensionKind where
  /-- Who owns the kind. -/
  owner : String
  /-- Which of the owner's kinds it is. -/
  code : Nat
  deriving DecidableEq

/-- The text `owner#code`. -/
def ExtensionKind.render (e : ExtensionKind) : String := e.owner ++ "#" ++ toString e.code

/-- **The kind of a token.** -/
inductive TokenKind where
  /-- A reserved word. -/
  | keyword (word : Keyword)
  /-- A bare word that is not reserved, or a quoted name. -/
  | identifier
  | string
  | blob
  | numeric
  /-- From two dashes to the end of the line. -/
  | lineComment
  /-- Between slash-star and star-slash. -/
  | blockComment
  | questionVariable
  | colonVariable
  | atVariable
  | dollarVariable
  | minus
  | leftParen
  | rightParen
  | semicolon
  | plus
  | star
  | slash
  | percent
  | eq
  | eqEq
  | ltEq
  | ltGt
  | leftShift
  | lt
  | gtEq
  | rightShift
  | gt
  | notEq
  | comma
  | bitAnd
  | bitNot
  | bitOr
  | concat
  | dot
  | arrow
  | doubleArrow
  /-- A run of blanks and line breaks. -/
  | whitespace
  /-- Malformed text. -/
  | error (cause : LexError)
  /-- The end of the input. -/
  | eof
  /-- A kind made outside the scanner. -/
  | extension (kind : ExtensionKind)
  deriving DecidableEq

namespace TokenKind

/-- The keyword of a keyword kind. -/
def keyword? : TokenKind → Option Keyword
  | keyword word => some word
  | _ => none

def isKeyword (kind : TokenKind) : Bool := kind.keyword?.isSome

/-- Malformed text. -/
def isError : TokenKind → Bool
  | error _ => true
  | _ => false

def isEof : TokenKind → Bool
  | eof => true
  | _ => false

def isComment : TokenKind → Bool
  | lineComment | blockComment => true
  | _ => false

/-- Whitespace and comments, which the grammar never sees. -/
def isTrivia : TokenKind → Bool
  | whitespace | lineComment | blockComment => true
  | _ => false

/-- The four styles of bind parameter. -/
def isVariable : TokenKind → Bool
  | questionVariable | colonVariable | atVariable | dollarVariable => true
  | _ => false

/-- Kinds whose text runs together with a neighbouring word when nothing
stands between them. -/
def isWordLike : TokenKind → Bool
  | keyword _ | identifier | string | blob | numeric => true
  | questionVariable | colonVariable | atVariable | dollarVariable => true
  | _ => false

/-- The fixed spelling of operators and punctuation. -/
def punctuation? : TokenKind → Option String
  | minus => some "-"
  | leftParen => some "("
  | rightParen => some ")"
  | semicolon => some ";"
  | plus => some "+"
  | star => some "*"
  | slash => some "/"
  | percent => some "%"
  | eq => some "="
  | eqEq => some "=="
  | ltEq => some "<="
  | ltGt => some "<>"
  | leftShift => some "<<"
  | lt => some "<"
  | gtEq => some ">="
  | rightShift => some ">>"
  | gt => some ">"
  | notEq => some "!="
  | comma => some ","
  | bitAnd => some "&"
  | bitNot => some "~"
  | bitOr => some "|"
  | concat => some "||"
  | dot => some "."
  | arrow => some "->"
  | doubleArrow => some "->>"
  | _ => none

/-- What a kind is called in a token listing: its spelling where it has one. -/
def render (kind : TokenKind) : String :=
  match kind.punctuation? with
  | some text => text
  | none =>
    match kind with
    | keyword word => word.spelling
    | identifier => "identifier"
    | string => "string"
    | blob => "blob"
    | numeric => "numeric"
    | lineComment => "sql comment"
    | blockComment => "c comment"
    | questionVariable => "?NNN variable"
    | colonVariable => ":AAA variable"
    | atVariable => "@AAA variable"
    | dollarVariable => "$AAA variable"
    | whitespace => "whitespace"
    | error cause => "error: " ++ cause.message
    | eof => "EOF"
    | extension kind => kind.render
    | _ => ""

/-- **Whether two tokens have to be kept apart by a space** to be read back as
the same two tokens: words run together, and two dashes or a slash and a star
would open a comment. -/
def needsSpace (left right : TokenKind) : Bool :=
  (left.isWordLike && right.isWordLike)
    || (left == minus && right == minus)
    || (left == slash && right == star)

end TokenKind

end TolerantSql
