import TolerantSql.Token.Lexer

/-!
# The tokens a parser sees

A parser sees neither blanks nor comments. What it sees is a stream of lexemes,
each a significant token with the comments that stand before it, and behind
them the end of the input over and over. The comments before the end of the
input are handed out once, with the first end.
-/

namespace TolerantSql

/-- **A significant token with the comments before it.** -/
structure Lexeme where
  token : Token
  comments : List Token
  deriving DecidableEq

/-- **The lexemes still to come**: those before the end of the input, and the
end itself, which is never used up. -/
structure TokenStream where
  pending : List Lexeme
  last : Lexeme
  deriving DecidableEq

namespace TokenStream

/-- Groups tokens into lexemes: blanks are dropped, and comments, those in
`comments` first, wait for the next significant token. A list without a token
for the end of the input ends at offset zero. -/
def ofTokens (comments : List Token) : List Token → TokenStream
  | [] => ⟨[], ⟨.eof 0, comments⟩⟩
  | token :: rest =>
    if token.isEof then ⟨[], ⟨token, comments⟩⟩
    else if token.kind.isComment then ofTokens (comments ++ [token]) rest
    else if token.kind.isTrivia then ofTokens comments rest
    else
      let behind := ofTokens [] rest
      { behind with pending := ⟨token, comments⟩ :: behind.pending }

/-- **The lexemes of a source text.** -/
def ofSource (source : String) : TokenStream := ofTokens [] (tokenize source)

/-- The lexeme at the front. -/
def current (s : TokenStream) : Lexeme := s.pending.head?.getD s.last

/-- The stream behind its front. The end of the input stays, without its
comments. -/
def advance (s : TokenStream) : TokenStream :=
  match s.pending with
  | _ :: pending => { s with pending }
  | [] => { s with last := ⟨s.last.token, []⟩ }

/-- The lexeme `n` places behind the front. -/
def peek (s : TokenStream) : (n : Nat) → Lexeme
  | 0 => s.current
  | n + 1 => s.advance.peek n

/-- Whether nothing is left, not even comments before the end. -/
def isAtEnd (s : TokenStream) : Bool := s.pending.isEmpty && s.last.comments.isEmpty

end TokenStream

end TolerantSql
