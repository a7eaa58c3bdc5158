import TolerantSql.Grammar.Level
import TolerantSql.Grammar.Query

/-!
# Expressions

Each level of binding parses an operand of the next tighter level and then the
operators of its own, so that a chain such as `a + b - c` is one flat node; a
level that finds no operator of its own leaves its operand as it is. The rules
stand tightest level first. `Rule.ofNonterminal` closes the circle: it says
which rules the three nonterminals stand for.
-/

namespace TolerantSql.Rule

/-! ## Operands -/

/-- One `. name` of a column reference with what may stand behind it. -/
def columnPart (behind : Rule) : Rule :=
  onlyIf (·.is .dot) <| all [
    shift,
    branch (·.isName) (all [shift, behind]) (missing true "column name")]

/-- `name [. name [. name]]` -/
def columnReference : Rule := node .columnReference (all [shift, columnPart (columnPart done)])

/-- `FILTER ( WHERE expr )` -/
def filterClause : Rule :=
  node .filterClause <| all [
    shift,
    expect .leftParen "(",
    expectKeyword .WHERE,
    expr,
    closeParen]

/-- `CURRENT ROW`, or `UNBOUNDED` or an expression, then `PRECEDING` or
`FOLLOWING` -/
def frameBound : Rule :=
  node .frameBound <|
    branch (·.isPair .CURRENT .ROW) (all [shift, shift]) <| all [
      branch (·.isKeyword .UNBOUNDED) shift (resume .negation),
      expectOneOf [.PRECEDING, .FOLLOWING] "expecting PRECEDING or FOLLOWING"]

/-- `EXCLUDE` with what is excluded -/
def frameExclude : Rule :=
  node .frameExclude <| all [
    shift,
    look fun v =>
      if v.isKeyword .NO then all [shift, expectKeyword .OTHERS]
      else if v.isKeyword .CURRENT then all [shift, expectKeyword .ROW]
      else if v.isKeywordIn [.GROUP, .TIES] then shift
      else expecting "expecting NO OTHERS, CURRENT ROW, GROUP or TIES"]

/-- A bound, or `BETWEEN` two bounds, with an optional `EXCLUDE` -/
def frameSpec : Rule :=
  node .frameSpec <| all [
    shift,
    branch (·.isKeyword .BETWEEN)
      (all [shift, frameBound, expectKeyword .AND, frameBound]) frameBound,
    onlyIf (·.isKeyword .EXCLUDE) frameExclude]

/-- `[name] [PARTITION BY …] [ORDER BY …] [frame]` -/
def windowDefinition : Rule :=
  all [
    eat .identifier,
    onlyIf (·.isKeyword .PARTITION)
      (node .partitionBy (all [shift, expectKeyword .BY, expressionList])),
    onlyIf (·.isKeyword .ORDER) orderBy,
    onlyIf (·.isKeywordIn [.RANGE, .ROWS, .GROUPS]) frameSpec]

/-- `OVER name` or `OVER ( window-definition )` -/
def overClause : Rule :=
  node .overClause <| all [
    shift,
    look fun v =>
      if v.is .leftParen then all [shift, windowDefinition, closeParen]
      else if v.isName then shift
      else expecting "expecting window name or ("]

/-- `name ( [DISTINCT] args [ORDER BY …] | * ) [FILTER …] [OVER …]` -/
def functionCall : Rule :=
  node .functionCall <| all [
    shift,
    shift,
    look fun v =>
      if v.is .star then shift
      else if v.is .rightParen then done
      else all [
        eatKeyword .DISTINCT,
        expressionList,
        onlyIf (·.isKeyword .ORDER) orderBy],
    closeParen,
    onlyIf (·.isKeyword .FILTER) filterClause,
    onlyIf (·.isKeyword .OVER) overClause]

/-- `( expr, … )` or a query in parentheses -/
def parenthesized : Rule :=
  branch (·.nextIsKeyword .SELECT) subquery
    (node .parenthesized (all [shift, expressionList, closeParen]))

/-- `CAST ( expr AS type-name )` -/
def cast : Rule :=
  node .cast (all [shift, shift, expr, expectKeyword .AS, typeName, closeParen])

/-- `[NOT] EXISTS ( SELECT … )` -/
def existsTest : Rule := node .existsTest (all [eatKeyword .NOT, shift, subquery])

/-- `WHEN expr THEN expr` -/
def whenArm : Rule := node .whenArm (all [shift, expr, expectKeyword .THEN, expr])

/-- `ELSE expr` -/
def elseArm : Rule := node .elseArm (all [shift, expr])

/-- `CASE [expr] WHEN expr THEN expr … [ELSE expr] END` -/
def caseExpr : Rule :=
  node .caseExpr <| all [
    shift,
    onlyIf (fun v => !v.isKeywordIn [.WHEN, .END]) expr,
    onlyIf (fun v => !v.isKeyword .WHEN) (missing true "WHEN"),
    loop (·.isKeyword .WHEN) whenArm,
    onlyIf (·.isKeyword .ELSE) elseArm,
    expectKeyword .END]

/-- `RAISE ( IGNORE )` or `RAISE ( ROLLBACK | ABORT | FAIL , expr )` -/
def raise : Rule :=
  node .raise <| all [
    shift,
    shift,
    look fun v =>
      if v.isKeyword .IGNORE then shift
      else if v.isKeywordIn [.ROLLBACK, .ABORT, .FAIL] then
        all [shift, expect .comma "comma", expr]
      else expecting "expecting IGNORE, ROLLBACK, ABORT or FAIL",
    closeParen]

/-- **No operand where one should be.** A token that can only follow an
expression means that the expression was left out; anything else is skipped up
to the next token that can start or follow an expression, and parsing resumes
there. -/
def missingExpression : Rule :=
  branch (·.current.followsExpression) (missing true "expression") <| all [
    recover true "expecting expression" .expression,
    onlyIf (·.current.startsExpression) (resume .negation)]

/-- **An expression without operators.** -/
def primary : Rule :=
  look fun v =>
    let call := v.nextIs .leftParen
    if v.is .leftParen then parenthesized
    else if v.isKeyword .CASE then caseExpr
    else if v.isKeyword .EXISTS || v.isPair .NOT .EXISTS then existsTest
    else if v.isKeyword .CAST && call then cast
    else if v.isKeyword .RAISE && call then raise
    else if v.isName && !v.current.followsExpression then
      if call then functionCall else columnReference
    else if v.current.isLiteral then shift
    else missingExpression

/-! ## Operators -/

/-- An operand behind any number of prefix operators. -/
def unary : Rule :=
  branch (·.current.isUnaryOperator) (node .unary (all [shift, nested .unary])) primary

/-- `operand COLLATE name …` -/
def collate : Rule :=
  chain .collate unary (·.isKeyword .COLLATE) (all [shift, collationName])

/-- Operands of the next tighter level with binary operators of one level
between them. -/
def binary (level : Level) (operand : Rule) : Rule :=
  chain level.nodeKind operand (·.current.operatorLevel? == some level) (all [shift, operand])

def concatenation : Rule := binary .concatenation collate

def multiplicative : Rule := binary .multiplicative concatenation

def additive : Rule := binary .additive multiplicative

def bitwise : Rule := binary .bitwise additive

def comparison : Rule := binary .comparison bitwise

/-- What may stand behind `IN`: a query or a list in parentheses, or the name
of a table. -/
def inTarget : Rule :=
  look fun v =>
    if v.is .leftParen then
      if v.nextIsKeyword .SELECT then subquery
      else node .parenthesized <| all [
        shift,
        onlyIf (fun v => !v.is .rightParen) expressionList,
        closeParen]
    else if v.isName then qualifiedName .tableName "table name"
    else expecting "expecting ( or table name"

/-- Whether a `NOT` here belongs to the operator behind it. -/
def negatesOperator (v : Lookahead) : Bool :=
  v.isKeyword .NOT && v.nextIsKeywordIn [.NULL, .BETWEEN, .IN, .LIKE, .GLOB, .REGEXP, .MATCH]

/-- **An operator of the equality level with what stands behind it**, if there
is one here. An `ESCAPE` belongs to the pattern operator before it. -/
def equalityLink? (v : Lookahead) : Option Rule :=
  let negated := negatesOperator v
  let operator := if negated then v.next else v.current
  let shiftOperator := if negated then all [shift, shift] else shift
  if operator.operatorLevel? == some .equality then some (all [shift, comparison])
  else if operator.isKeywordIn [.ISNULL, .NOTNULL] then some shift
  else if operator == .keyword .NULL && negated then some shiftOperator
  else if operator == .keyword .IS then
    some <| all [
      shift,
      eatKeyword .NOT,
      onlyIf (·.isKeyword .DISTINCT) (all [shift, expectKeyword .FROM]),
      comparison]
  else if operator == .keyword .BETWEEN then
    some (all [shiftOperator, comparison, expectKeyword .AND, comparison])
  else if operator == .keyword .IN then some (all [shiftOperator, inTarget])
  else if operator.isKeywordIn [.LIKE, .GLOB, .REGEXP, .MATCH] then
    some <| all [
      shiftOperator,
      comparison,
      onlyIf (·.isKeyword .ESCAPE) (all [shift, comparison])]
  else none

/-- Equality, membership, pattern and range tests. -/
def equality : Rule :=
  chain .equality comparison (fun v => (equalityLink? v).isSome)
    (look fun v => (equalityLink? v).getD done)

/-- `NOT expr`, except that `NOT EXISTS` is an operand. -/
def negation : Rule :=
  branch (fun v => v.isKeyword .NOT && !v.nextIsKeyword .EXISTS)
    (node .not (all [shift, nested .negation])) equality

def conjunction : Rule := binary .and negation

def disjunction : Rule := binary .or conjunction

/-! ## Recursion -/

/-- **The rules that the nonterminals stand for.** -/
def ofNonterminal : Nonterminal → Rule
  | .expression => disjunction
  | .negation => negation
  | .unary => unary

end TolerantSql.Rule
