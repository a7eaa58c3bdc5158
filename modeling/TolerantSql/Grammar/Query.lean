import TolerantSql.Grammar.Rule

/-!
# Queries and type names

The parts of the grammar that contain expressions and that expressions contain:
the columns of a query, a query in parentheses, the order of rows, and the type
names of casts and column definitions.
-/

namespace TolerantSql.Rule

/-- An expression. -/
def expr : Rule := nested .expression

/-- Expressions separated by commas. -/
def expressionList : Rule :=
  list ⟨"expression", TokenKind.startsExpression, .expressionList⟩ expr

/-! ## Queries -/

/-- `[AS] alias`, where an alias without `AS` is an identifier or a string. -/
def columnAlias : Rule :=
  look fun v =>
    if v.isKeyword .AS then all [
      shift,
      branch (fun v => v.is .string || v.isName) (node .columnAlias shift)
        (missing true "column alias")]
    else onlyIf (fun v => v.is .identifier || v.is .string) (node .columnAlias shift)

/-- `*`, `table . *` or `expr [[AS] alias]` -/
def resultColumn : Rule :=
  node .resultColumn <| look fun v =>
    if v.is .star then shift
    else if v.isName && v.nextIs .dot && v.afterNext == .star then
      all [node .tableName shift, shift, shift]
    else all [expr, columnAlias]

/-- `SELECT [DISTINCT | ALL] result-column, …` The clauses behind the columns
are no part of the grammar. -/
def select : Rule :=
  node .select <| all [
    shift,
    eatOneOf [.DISTINCT, .ALL],
    list ⟨"result column", TokenKind.startsResultColumn, .resultColumns⟩ resultColumn]

/-- `( SELECT … )` -/
def subquery : Rule :=
  node .subquery <| all [
    expect .leftParen "(",
    branch (·.isKeyword .SELECT) select (missing true "SELECT"),
    closeParen]

/-! ## The order of rows -/

/-- `expr [ASC | DESC] [NULLS FIRST | NULLS LAST]` -/
def orderingTerm : Rule :=
  node .orderingTerm <| all [
    expr,
    eatOneOf [.ASC, .DESC],
    onlyIf (·.isKeyword .NULLS) <| all [
      shift,
      expectOneOf [.FIRST, .LAST] "expecting FIRST or LAST"]]

/-- `ORDER BY ordering-term, …` -/
def orderBy : Rule :=
  node .orderBy <| all [
    shift,
    expectKeyword .BY,
    list ⟨"ordering term", TokenKind.startsExpression, .expressionList⟩ orderingTerm]

/-! ## Type names -/

/-- Whether a column constraint starts here. -/
def startsConstraint (v : Lookahead) : Bool :=
  v.isKeywordIn [.CONSTRAINT, .PRIMARY, .NULL, .UNIQUE, .CHECK, .DEFAULT, .COLLATE, .REFERENCES,
    .AS]
    || v.isPair .NOT .NULL || v.isPair .GENERATED .ALWAYS

/-- Whether the current token is a word of a type name. -/
def isTypeWord (v : Lookahead) : Bool := v.isName && !startsConstraint v

/-- `[+ | -] number` -/
def signedNumber : Rule :=
  node .signedNumber <| all [
    onlyIf (fun v => v.is .plus || v.is .minus) shift,
    expect .numeric "number"]

/-- `name … [( signed-number [, signed-number] )]` -/
def typeName : Rule :=
  branch isTypeWord
    (node .typeName <| all [
      loop isTypeWord shift,
      onlyIf (·.is .leftParen) <| all [
        shift,
        signedNumber,
        onlyIf (·.is .comma) (all [shift, signedNumber]),
        closeParen]])
    (missing true "type name")

/-- A collation is named by a name or a string. -/
def collationName : Rule := branch (·.is .string) shift (nameToken "collation name")

end TolerantSql.Rule
