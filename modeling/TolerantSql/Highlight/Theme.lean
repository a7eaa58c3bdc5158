import TolerantSql.Highlight.Transform

/-!
# Themes

A theme gives a style to each class of token that is highlighted; names and
blanks keep the terminal's own.
-/

namespace TolerantSql

/-- **The style of each class of token.** -/
structure Theme where
  keyword : Style
  literal : Style
  number : Style
  bindParam : Style
  comment : Style
  operator : Style
  error : Style
  deriving DecidableEq

namespace Theme

/-- The theme of the terminal's eight colors. -/
def ansi : Theme where
  keyword := ⟨.blue, true⟩
  literal := ⟨.green, false⟩
  number := ⟨.cyan, false⟩
  bindParam := ⟨.magenta, false⟩
  comment := ⟨.white, false⟩
  operator := ⟨.yellow, false⟩
  error := ⟨.red, true⟩

/-- A theme of true colors. -/
def rgb : Theme where
  keyword := ⟨.rgb 0x56 0x9c 0xd6, true⟩
  literal := ⟨.rgb 0xce 0x91 0x78, false⟩
  number := ⟨.rgb 0xb5 0xce 0xa8, false⟩
  bindParam := ⟨.rgb 0x9c 0xdc 0xfe, false⟩
  comment := ⟨.rgb 0x6a 0x99 0x55, false⟩
  operator := ⟨.rgb 0xd4 0xd4 0xd4, false⟩
  error := ⟨.rgb 0xf4 0x47 0x47, true⟩

/-- The theme of a name, in any case. -/
def ofName (name : String) : Except ColorError Theme :=
  if name.toLower = "ansi" then .ok ansi
  else if name.toLower = "rgb" then .ok rgb
  else .error (.unknownTheme name)

/-- **How a theme marks tokens**: each token by the first class it is in. -/
def transform (theme : Theme) : Transform :=
  .firstMatch [
    .colorize TokenKind.isError theme.error,
    .colorize TokenKind.isKeyword theme.keyword,
    .colorize (fun kind => kind == .string || kind == .blob) theme.literal,
    .colorize (· == .numeric) theme.number,
    .colorize TokenKind.isVariable theme.bindParam,
    .colorize TokenKind.isComment theme.comment,
    .colorize (fun kind => kind.punctuation?.isSome) theme.operator]

end Theme

/-- **A source text with the escape sequences of a theme.** -/
def highlight (source : String) (theme : Theme) : String :=
  joinTexts (theme.transform.onSource source)

end TolerantSql
