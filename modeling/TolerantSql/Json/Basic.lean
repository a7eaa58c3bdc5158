/-!
# JSON documents

A document keeps the members of its objects in the order in which they were
given. `Json.pretty` writes a document over several lines, two spaces deeper
for each level, with empty arrays and objects on one line.
-/

namespace TolerantSql

/-- **A JSON document** whose numbers are natural numbers. -/
inductive Json where
  | null
  | bool (b : Bool)
  | number (n : Nat)
  | string (s : String)
  | array (items : List Json)
  | object (members : List (String × Json))

namespace Json

/-- The two lower-case hexadecimal digits of a control character. -/
def controlDigits (c : Char) : List Char :=
  let digits := Nat.toDigits 16 c.toNat
  if digits.length = 1 then '0' :: digits else digits

/-- How one character stands in a string: quotes, backslashes and control
characters are escaped, all others stand for themselves. -/
def escapeChar (c : Char) : List Char :=
  if c = '\x22' then ['\\', '\x22']
  else if c = '\\' then ['\\', '\\']
  else if c = '\x08' then ['\\', 'b']
  else if c = '\x0c' then ['\\', 'f']
  else if c = '\n' then ['\\', 'n']
  else if c = '\x0d' then ['\\', 'r']
  else if c = '\t' then ['\\', 't']
  else if c.toNat < 0x20 then ['\\', 'u', '0', '0'] ++ controlDigits c
  else [c]

/-- A string in quotes. -/
def quote (s : String) : String :=
  String.ofList ('\x22' :: s.toList.flatMap escapeChar ++ ['\x22'])

/-- A line break with the indentation of a level. -/
def newline (level : Nat) : String := "\n" ++ String.ofList (List.replicate (2 * level) ' ')

/-- Items of one level between brackets, one a line. -/
def block (opening closing : String) (level : Nat) (items : List String) : String :=
  match items with
  | [] => opening ++ closing
  | _ =>
    opening ++ newline (level + 1) ++ ("," ++ newline (level + 1)).intercalate items
      ++ newline level ++ closing

mutual

/-- A document that starts on a line of the given level. -/
def prettyAt (level : Nat) : Json → String
  | null => "null"
  | bool b => if b then "true" else "false"
  | number n => toString n
  | string s => quote s
  | array items => block "[" "]" level (prettyItems (level + 1) items)
  | object members => block "\x7b" "\x7d" level (prettyMembers (level + 1) members)

/-- The items of an array, each written on its own. -/
def prettyItems (level : Nat) : List Json → List String
  | [] => []
  | item :: rest => prettyAt level item :: prettyItems level rest

/-- The members of an object, each written on its own. -/
def prettyMembers (level : Nat) : List (String × Json) → List String
  | [] => []
  | (key, value) :: rest =>
    (quote key ++ ": " ++ prettyAt level value) :: prettyMembers level rest

end

/-- **A document over several lines.** -/
def pretty (document : Json) : String := prettyAt 0 document

end Json

end TolerantSql
