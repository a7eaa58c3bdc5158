import TolerantSql.Text.Unprintable

/-!
# Quoted text

Messages, log lines and token listings show text between quotes on a single
line. A backslash introduces an escape; the quote that delimits the text is
escaped inside it and the other one is not; an unprintable character is given
by its code point in braces. So quoted text never holds a line break.
-/

namespace TolerantSql.Quoted

/-- The code point of a character in braces, in the fewest lower-case
hexadecimal digits. -/
def codePoint (c : Char) : List Char :=
  "\\u\x7b".toList ++ Nat.toDigits 16 c.toNat ++ ['\x7d']

/-- How one character stands between quotes of the given kind. -/
def escapeChar (quote c : Char) : List Char :=
  if c = '\x00' then ['\\', '0']
  else if c = '\t' then ['\\', 't']
  else if c = '\x0d' then ['\\', 'r']
  else if c = '\n' then ['\\', 'n']
  else if c = '\\' then ['\\', '\\']
  else if c = quote then ['\\', c]
  else if isUnprintable c then codePoint c
  else [c]

/-- **Text between double quotes.** -/
def string (s : String) : String :=
  String.ofList ('\x22' :: s.toList.flatMap (escapeChar '\x22') ++ ['\x22'])

/-- **A character between single quotes.** -/
def char (c : Char) : String :=
  String.ofList ('\x27' :: escapeChar '\x27' c ++ ['\x27'])

end TolerantSql.Quoted
