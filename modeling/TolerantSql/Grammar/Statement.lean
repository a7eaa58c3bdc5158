import TolerantSql.Grammar.ColumnDefinition

/-!
# Statements

The rules of the five kinds of statement, each behind the keyword that begins
it. What ends a statement is no part of its rule.
-/

namespace TolerantSql.Rule

/-- Keywords that begin what `ALTER TABLE` is to do. -/
def alterKeywords : List Keyword := [.RENAME, .ADD, .DROP]

/-- What `ALTER TABLE` is to do. Where the input has ended before, that is reported
instead. -/
def alterAction : Rule :=
  look fun v =>
    if v.isPair .RENAME .TO then
      node .renameTo (all [shift, shift, name .tableName "table name"])
    else if v.isKeyword .RENAME then
      node .renameColumn <| all [
        shift,
        eatKeyword .COLUMN,
        name .columnName "column name",
        expectKeyword .TO,
        name .columnName "column name"]
    else if v.isKeyword .ADD then
      node .addColumn (all [shift, eatKeyword .COLUMN, columnDefinition])
    else if v.isKeyword .DROP then
      node .dropColumn (all [shift, eatKeyword .COLUMN, name .columnName "column name"])
    else if v.is .eof then expecting "expecting RENAME, ADD or DROP"
    else recover false "expecting RENAME, ADD or DROP" .statementEnd

/-- Whether the name of the table was left out: the word that begins the action
stands in its place, and is neither the name of a schema nor a table that
happens to be called so. -/
def lacksTableName (v : Lookahead) : Bool :=
  v.isKeywordIn alterKeywords && !v.nextIs .dot && !v.nextIsKeywordIn alterKeywords

/-- `ALTER TABLE [schema .] table action` -/
def alterTable : Rule :=
  node .alterTable <| all [
    shift,
    expectKeyword .TABLE,
    branch lacksTableName (missing true "table name") (qualifiedName .tableName "table name"),
    alterAction]

/-- `ANALYZE [[schema .] name]` -/
def analyze : Rule :=
  node .analyze (all [shift, onlyIf (·.isName) (qualifiedName .tableName "table name")])

/-- `ATTACH [DATABASE] expr AS schema` -/
def attach : Rule :=
  node .attach <| all [
    shift,
    eatKeyword .DATABASE,
    expr,
    expectKeyword .AS,
    name .schemaName "schema name"]

/-- `BEGIN [DEFERRED | IMMEDIATE | EXCLUSIVE] [TRANSACTION [name]]` -/
def begin : Rule :=
  node .begin <| all [
    shift,
    eatOneOf [.DEFERRED, .IMMEDIATE, .EXCLUSIVE],
    onlyIf (·.isKeyword .TRANSACTION) (all [shift, onlyIf (·.isName) shift])]

/-- `[EXPLAIN [QUERY PLAN]]` -/
def explain : Rule :=
  onlyIf (·.isKeyword .EXPLAIN) <| all [
    shift,
    onlyIf (·.isKeyword .QUERY) (all [shift, expectKeyword .PLAN])]

/-- **The rule of the statement that a keyword begins.** -/
def ofStatementKeyword? : TokenKind → Option Rule
  | .keyword .ALTER => some alterTable
  | .keyword .SELECT => some select
  | .keyword .ANALYZE => some analyze
  | .keyword .ATTACH => some attach
  | .keyword .BEGIN => some begin
  | _ => none

end TolerantSql.Rule
