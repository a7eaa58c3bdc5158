import TolerantSql.Grammar.State

/-!
# Grammar rules as data

The grammar is not a set of functions that parse but a set of values that say
how to parse: a `Rule` is built from a few primitives by sequence, choice on
the lookahead, and repetition. One interpreter (`Rule.run`) gives every rule
its meaning. What holds of all primitives (no token is lost, an error is reported
before tokens are skipped, a skip ends at a semicolon) holds therefore of every rule
that can be written down, and is proved by induction on rules.

Other properties the grammar has to earn, each of its rules where it stands: that a
token which is taken is neither malformed nor the end of the statement, that every
repetition and every recursion takes tokens (`Rule.Secures`), and that no test looks
past the end of the statement (`Rule.Confined`).

Rules that contain themselves refer to each other by name: `nested` and
`resume` stand for a `Nonterminal`. There are three of these, and all other
rules are plain values without recursion.
-/

namespace TolerantSql

/-- **The names by which rules call each other recursively.** -/
inductive Nonterminal where
  /-- A whole expression. -/
  | expression
  /-- An expression that binds at least as tightly as a logical negation. -/
  | negation
  /-- An operand with its prefix operators. -/
  | unary
  deriving DecidableEq

/-- **A grammar rule.** -/
inductive Rule where
  /-- Matches nothing. -/
  | done
  /-- One rule, then another. -/
  | seq (first second : Rule)
  /-- A choice made by looking ahead. -/
  | look (choose : Lookahead → Rule)
  /-- Takes the current token. -/
  | shift
  /-- Reports that something is absent. -/
  | missing (announced : Bool) (what : String)
  /-- Reports that the current token does not fit. -/
  | expecting (message : String)
  /-- Reports that the current token does not fit and skips to one that
  does. -/
  | recover (announced : Bool) (message : String) (sync : StopSet)
  /-- Gathers what a rule adds into a node. -/
  | node (kind : NodeKind) (body : Rule)
  /-- An operand with any number of links behind it. There is a node only if
  there is a link; a lone operand stands for itself. -/
  | chain (kind : NodeKind) (operand : Rule) (continues : Lookahead → Bool) (link : Rule)
  /-- A rule over and over while a condition holds. -/
  | loop (continues : Lookahead → Bool) (body : Rule)
  /-- Items separated by commas. -/
  | list (shape : State.ListShape) (item : Rule)
  /-- A nonterminal one level deeper, or an error if that is too deep. -/
  | nested (goal : Nonterminal)
  /-- A nonterminal on the same level. -/
  | resume (goal : Nonterminal)

namespace Rule

/-- How deeply expressions may be nested. -/
def maxDepth : Nat := 200

/-- **The meaning of a rule**, at a nesting depth and given the meaning of the
nonterminals at each depth. -/
def run (goals : Nat → Nonterminal → Parse) (depth : Nat) : Rule → Parse
  | done => State.stay
  | seq first second => fun s => (run goals depth first s).andThen (run goals depth second)
  | look choose => fun s => run goals depth (choose s.lookahead) s
  | shift => State.shift
  | missing announced what => State.missing announced what
  | expecting message => State.expecting message
  | recover announced message sync => State.recover announced message sync
  | node kind body => fun s => (run goals depth body s).wrap kind
  | chain kind operand continues link => fun s =>
    let first := run goals depth operand s
    if continues first.state.lookahead then
      (first.andThen (State.repeatWhile continues (run goals depth link))).wrap kind
    else first
  | loop continues body => State.repeatWhile continues (run goals depth body)
  | list shape item => State.commaList shape (run goals depth item)
  | nested goal => if depth < maxDepth then goals (depth + 1) goal else State.cutOff
  | resume goal => goals depth goal

/-! ## Building rules -/

/-- Rules one after the other. -/
def all (rules : List Rule) : Rule := rules.foldr seq done

/-- One of two rules. -/
def branch (test : Lookahead → Bool) (yes no : Rule) : Rule :=
  look fun v => if test v then yes else no

/-- A rule that is left out unless the lookahead calls for it. -/
def onlyIf (test : Lookahead → Bool) (rule : Rule) : Rule := branch test rule done

/-- Takes a token of the given kind if there is one. -/
def eat (kind : TokenKind) : Rule := onlyIf (·.is kind) shift

/-- Takes the given keyword if there is one. -/
def eatKeyword (word : Keyword) : Rule := eat (.keyword word)

/-- Takes one of the given keywords if there is one. -/
def eatOneOf (words : List Keyword) : Rule := onlyIf (·.isKeywordIn words) shift

/-- Takes a token of the given kind, or reports it as missing. -/
def expect (kind : TokenKind) (what : String) : Rule :=
  branch (·.is kind) shift (missing true what)

/-- Takes the given keyword, or reports it as missing. -/
def expectKeyword (word : Keyword) : Rule := expect (.keyword word) word.spelling

/-- Takes one of the given keywords, or reports that none fits. -/
def expectOneOf (words : List Keyword) (message : String) : Rule :=
  branch (·.isKeywordIn words) shift (expecting message)

/-- Takes a name, or reports it as missing. -/
def nameToken (what : String) : Rule := branch (·.isName) shift (missing true what)

/-- Takes a name into a node, or reports it as missing. -/
def name (kind : NodeKind) (what : String) : Rule :=
  branch (·.isName) (node kind shift) (missing true what)

/-- `[schema .] name` -/
def qualifiedName (kind : NodeKind) (what : String) : Rule :=
  all [
    onlyIf (fun v => v.isName && v.nextIs .dot) (all [node .schemaName shift, shift]),
    name kind what]

/-- The `)` that closes a construct, with recovery up to one in the same
statement. -/
def closeParen : Rule :=
  look fun v =>
    if v.is .rightParen then shift
    else if v.current.endsStatement then missing true ")"
    else all [
      recover false "expecting )" .closing,
      branch (·.is .rightParen) shift (missing false ")")]

end Rule

end TolerantSql
