import TolerantSql.Grammar.Parse
import TolerantSql.Grammar.Statement

/-!
# Statements of a source

Parsing yields one statement after the other, and never fails: each statement
has a tree, whatever the text is, and the comments before its tokens. The
statements of a source are read until nothing is left, not even a comment;
comments behind the last semicolon come back with one more statement that holds
the end of the input alone.
-/

namespace TolerantSql

/-- **A parsed statement.** -/
structure Statement where
  /-- What stands below the root of the tree. -/
  children : Forest
  /-- The comments before the statement's tokens. -/
  comments : CommentMap
  deriving DecidableEq

namespace Statement

/-- The tree of a statement. -/
def tree (s : Statement) : Tree := .node .sqlStatement s.children

/-- Whether the statement has a syntax error. -/
def hasErrors (s : Statement) : Bool := s.tree.hasErrors

/-- The kind of the first inner node below the root. -/
def mainKind? (s : Statement) : Option NodeKind :=
  s.children.findSome? fun child =>
    match child with
    | .node kind _ => some kind
    | _ => none

end Statement

namespace State

/-- Takes the token that ends the statement. What is left over before it is
reported and skipped. -/
def finish : Parse := fun s =>
  if s.atEnd then take s
  else (recover false "expecting ;" .terminator s).andThen take

/-- What stands behind the optional `EXPLAIN`. Without a statement the text up
to the next one is skipped, and only the end of a statement is taken then: a
keyword that begins a statement begins the next one. -/
def body (explained : Bool) : Parse := fun s =>
  match Rule.ofStatementKeyword? s.current.kind with
  | some rule => (rule.parse s).andThen finish
  | none =>
    if s.atEnd then
      ((if explained then add (.missing "missing statement") else stay) s).andThen finish
    else
      (recover false "expecting statement" .statement s).andThen fun s =>
        if s.atEnd then finish s else stay s

/-- **Parses one statement.** -/
def statement : Parse := fun s =>
  (Rule.explain.parse s).andThen (body (s.lookahead.isKeyword .EXPLAIN))

end State

/-- What parsing one statement comes to. -/
structure ParsedStatement where
  statement : Statement
  /-- What was logged on the way, in order. -/
  events : List Event
  /-- The lexemes behind the statement. -/
  rest : TokenStream

namespace TokenStream

/-- **Parses the statement at the front of a stream.** At the end of the input
it holds the end of the input alone. -/
def parseStatement (input : TokenStream) : ParsedStatement :=
  let begun := State.start input
  let out := begun.statement
  let statement : Statement := ⟨out.forest, out.state.comments⟩
  { statement
    events :=
      .parsingStatement begun.offset ::
        (out.state.log.reverse ++
          [.parsedStatement begun.offset ((statement.mainKind?.map NodeKind.name).getD "empty")
            statement.tree.errors.length])
    rest := out.state.input }

/-- What a stream has to come: its tokens, and comments before the end. -/
def weight (s : TokenStream) : Nat :=
  s.pending.length + (if s.last.comments.isEmpty then 0 else 1)

/-- **Parses statements until nothing is left.** -/
def parseAll (input : TokenStream) : List ParsedStatement :=
  if input.isAtEnd then []
  else
    let parsed := input.parseStatement
    if _h : parsed.rest.weight < input.weight then parsed :: parseAll parsed.rest else [parsed]
termination_by input.weight

end TokenStream

/-- **The statements of a source text.** -/
def parse (source : String) : List Statement :=
  (TokenStream.ofSource source).parseAll.map ParsedStatement.statement

/-- What is logged while a source text is parsed. -/
def parseLog (source : String) : List Event :=
  (TokenStream.ofSource source).parseAll.flatMap ParsedStatement.events

end TolerantSql
