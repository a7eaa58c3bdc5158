import TolerantSql.Text.Quoted

/-!
# Malformed tokens

Scanning never stops at malformed text: the text becomes a token that says what
is wrong with it, and scanning goes on behind it. `LexError` is the list of
causes and `LexError.message` the only place where they are put into words.
-/

namespace TolerantSql

/-- **What is wrong with a malformed token.** -/
inductive LexError where
  /-- The input ended inside the named thing. -/
  | unexpectedEnd (inside : String)
  /-- A character that starts no token. -/
  | unexpectedCharacter (c : Char)
  /-- A blob literal holds something other than hexadecimal digits. -/
  | invalidBlob
  /-- The sigil of a bind parameter is not followed by a name. -/
  | invalidVariable (sigil : Char)
  deriving DecidableEq

namespace LexError

/-- What a sigil is called in a message. -/
def sigilName (sigil : Char) : String :=
  if sigil = ':' then "colon"
  else if sigil = '@' then "at"
  else if sigil = '$' then "dollar"
  else "variable sigil"

/-- The wording of each cause. -/
def message : LexError → String
  | unexpectedEnd inside => inside ++ ": unexpected EOF"
  | unexpectedCharacter c => "unexpected character " ++ Quoted.char c
  | invalidBlob => "blob literal must contain only hexadecimal characters"
  | invalidVariable sigil => "invalid character after " ++ sigilName sigil

end LexError

end TolerantSql
