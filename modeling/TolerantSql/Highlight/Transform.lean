import TolerantSql.Highlight.Color

/-!
# Token transforms

A transform turns one token into any number of tokens, and says which kinds of
token it is meant for. Transforms are put together in two ways: in a chain each
works on what the one before made, and of several alternatives the first that
accepts the token does the work. `Transform.colorize` puts a token between two
markers, tokens of kinds of their own whose text is an escape sequence; taking
the markers out again gives back the tokens there were.
-/

namespace TolerantSql

/-! ## Markers -/

/-- The owner of the marker kinds. -/
def markerOwner : String := "highlight"

/-- The marker at which a style begins. -/
def styleMarker : TokenKind := .extension ⟨markerOwner, 0⟩

/-- The marker at which a style ends. -/
def resetMarker : TokenKind := .extension ⟨markerOwner, 1⟩

/-- Whether a kind is a marker. -/
def TokenKind.isMarker : TokenKind → Bool
  | .extension e => e.owner == markerOwner
  | _ => false

/-- **A way to turn a token into tokens.** -/
structure Transform where
  /-- What becomes of a token. -/
  apply : Token → List Token
  /-- The kinds of token the transform is meant for. -/
  accepts : TokenKind → Bool

namespace Transform

/-- Applies a transform to each of some tokens. -/
def applyAll (t : Transform) (tokens : List Token) : List Token := tokens.flatMap t.apply

/-- **One after the other**: each transform works on all that the one before it
made. -/
def chain (members : List Transform) : Transform where
  apply token := members.foldl (fun tokens t => t.applyAll tokens) [token]
  accepts kind := members.any (·.accepts kind)

/-- **Only the first that accepts the token**; a token that none accepts stays
as it is. -/
def firstMatch (members : List Transform) : Transform where
  apply token :=
    match members.find? (·.accepts token.kind) with
    | some t => t.apply token
    | none => [token]
  accepts kind := members.any (·.accepts kind)

/-- **Puts tokens of the chosen kinds between markers.** The end of the input
is never marked. -/
def colorize (chosen : TokenKind → Bool) (style : Style) : Transform where
  apply token :=
    if chosen token.kind && !token.isEof then
      [⟨styleMarker, style.escape, .empty token.span.start⟩,
        token,
        ⟨resetMarker, Style.reset, .empty token.span.stop⟩]
    else [token]
  accepts := chosen

/-- What a transform makes of the tokens of a source text. -/
def onSource (t : Transform) (source : String) : List Token := t.applyAll (tokenize source)

end Transform

/-- The texts of tokens, one behind the other. -/
def joinTexts (tokens : List Token) : String := String.join (tokens.map Token.text)

end TolerantSql
