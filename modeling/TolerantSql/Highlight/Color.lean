import TolerantSql.Token.Lexer

/-!
# Colors and styles

A color is one of the eight that every terminal has, or given by its red, green
and blue channels. A style is a color that may be bold, and selects itself on a
terminal by an escape sequence.
-/

namespace TolerantSql

/-- Why a color or a theme cannot be used. -/
inductive ColorError where
  /-- Not of the form `#rrggbb`. -/
  | invalidHex (text : String)
  /-- Not the name of a color. -/
  | unknownColor (text : String)
  /-- Not the name of a theme. -/
  | unknownTheme (text : String)
  deriving DecidableEq

/-- The wording of each cause. -/
def ColorError.message : ColorError → String
  | invalidHex text => "invalid RGB color '" ++ text ++ "': expected #rrggbb"
  | unknownColor text => "unknown color '" ++ text ++ "'"
  | unknownTheme text => "unknown theme '" ++ text ++ "': expected ansi or rgb"

/-- **A color of the terminal.** -/
inductive Color where
  | black | red | green | yellow | blue | magenta | cyan | white
  | rgb (red green blue : UInt8)
  deriving DecidableEq

namespace Color

/-- The value of a hexadecimal digit. -/
def hexDigit? (c : Char) : Option Nat :=
  if c.isDigit then some (c.toNat - '0'.toNat)
  else if 'a' ≤ c && c ≤ 'f' then some (c.toNat - 'a'.toNat + 10)
  else if 'A' ≤ c && c ≤ 'F' then some (c.toNat - 'A'.toNat + 10)
  else none

/-- A channel from its two digits. -/
def channel? (high low : Char) : Option UInt8 := do
  return UInt8.ofNat (16 * (← hexDigit? high) + (← hexDigit? low))

/-- The color written as `#` and six hexadecimal digits. -/
def ofHexChars? : List Char → Option Color
  | ['#', r, r', g, g', b, b'] => do
    return rgb (← channel? r r') (← channel? g g') (← channel? b b')
  | _ => none

/-- **Reads `#rrggbb`.** -/
def ofHex (text : String) : Except ColorError Color :=
  match ofHexChars? text.toList with
  | some color => .ok color
  | none => .error (.invalidHex text)

/-- The eight named colors. -/
def named : List (String × Color) :=
  [("black", black), ("red", red), ("green", green), ("yellow", yellow), ("blue", blue),
    ("magenta", magenta), ("cyan", cyan), ("white", white)]

/-- **Reads a color** by name, in any case, or by its channels. -/
def ofText (text : String) : Except ColorError Color :=
  if text.startsWith "#" then ofHex text
  else
    match named.lookup text.toLower with
    | some color => .ok color
    | none => .error (.unknownColor text)

/-- The parameters that select a color. -/
def code : Color → String
  | black => "30"
  | red => "31"
  | green => "32"
  | yellow => "33"
  | blue => "34"
  | magenta => "35"
  | cyan => "36"
  | white => "37"
  | rgb r g b => "38;2;" ++ toString r.toNat ++ ";" ++ toString g.toNat ++ ";" ++ toString b.toNat

end Color

/-- **A color that may be bold.** -/
structure Style where
  color : Color
  bold : Bool
  deriving DecidableEq

namespace Style

/-- The escape sequence that ends every style. -/
def reset : String := "\x1b[0m"

/-- The escape sequence that selects a style. -/
def escape (s : Style) : String := "\x1b[" ++ (if s.bold then "1;" else "") ++ s.color.code ++ "m"

end Style

end TolerantSql
