import TolerantSql.Grammar.Query

/-!
# Column definitions

A column is a name, an optional type, and constraints in any number.
-/

namespace TolerantSql.Rule

/-- `ON CONFLICT action`, if it is there -/
def conflictClause : Rule :=
  onlyIf (·.isPair .ON .CONFLICT) <| node .conflictClause <| all [
    shift,
    shift,
    expectOneOf [.ROLLBACK, .ABORT, .FAIL, .IGNORE, .REPLACE]
      "expecting ROLLBACK, ABORT, FAIL, IGNORE or REPLACE"]

/-- An expression in parentheses, behind a word that calls for one. -/
def parenthesizedExpr : Rule := all [expect .leftParen "(", expr, closeParen]

/-- `[GENERATED ALWAYS] AS ( expr ) [STORED | VIRTUAL]` -/
def generatedColumn : Rule :=
  all [
    onlyIf (·.isKeyword .GENERATED) (all [shift, expectKeyword .ALWAYS]),
    expectKeyword .AS,
    parenthesizedExpr,
    onlyIf (fun v => v.isKeyword .VIRTUAL || v.isWord "STORED") shift]

/-- What may stand behind `DEFAULT`: a signed number, a literal, an expression
in parentheses, or a bare name. -/
def defaultValue : Rule :=
  look fun v =>
    if v.is .leftParen then parenthesizedExpr
    else if v.is .plus || v.is .minus || v.is .numeric then signedNumber
    else if v.is .string || v.is .blob
      || v.isKeywordIn [.NULL, .CURRENT_DATE, .CURRENT_TIME, .CURRENT_TIMESTAMP] then shift
    else if v.isName then shift
    else expecting "expecting default value"

/-- What happens to a row when the row it refers to is deleted or changed -/
def foreignKeyAction : Rule :=
  look fun v =>
    if v.isKeyword .SET then
      all [shift, expectOneOf [.NULL, .DEFAULT] "expecting NULL or DEFAULT"]
    else if v.isKeywordIn [.CASCADE, .RESTRICT] then shift
    else if v.isKeyword .NO then all [shift, expectKeyword .ACTION]
    else expecting "expecting SET NULL, SET DEFAULT, CASCADE, RESTRICT or NO ACTION"

/-- Whether `ON DELETE` or `ON UPDATE` stands here. -/
def startsForeignKeyAction (v : Lookahead) : Bool :=
  v.isKeyword .ON && v.nextIsKeywordIn [.DELETE, .UPDATE]

/-- `[NOT] DEFERRABLE [INITIALLY DEFERRED | INITIALLY IMMEDIATE]`, if it is
there -/
def deferrableClause : Rule :=
  onlyIf (fun v => v.isPair .NOT .DEFERRABLE || v.isKeyword .DEFERRABLE) <| all [
    eatKeyword .NOT,
    shift,
    onlyIf (·.isKeyword .INITIALLY) <| all [
      shift,
      expectOneOf [.DEFERRED, .IMMEDIATE] "expecting DEFERRED or IMMEDIATE"]]

/-- `REFERENCES table [( column, … )]`, then actions and `MATCH name` in any
number, then when the reference is checked -/
def foreignKeyClause : Rule :=
  node .foreignKeyClause <| all [
    shift,
    name .tableName "table name",
    onlyIf (·.is .leftParen) <| all [
      shift,
      list ⟨"column name", TokenKind.isName, .columnNames⟩ (name .columnName "column name"),
      closeParen],
    loop (fun v => startsForeignKeyAction v || v.isKeyword .MATCH) <|
      branch startsForeignKeyAction
        (all [shift, shift, foreignKeyAction])
        (all [shift, nameToken "match name"]),
    deferrableClause]

/-- The constraint itself, behind its optional name. -/
def constraintBody : Rule :=
  look fun v =>
    if v.isKeyword .PRIMARY then all [
      shift,
      expectKeyword .KEY,
      eatOneOf [.ASC, .DESC],
      conflictClause,
      eatKeyword .AUTOINCREMENT]
    else if v.isPair .NOT .NULL then all [shift, shift, conflictClause]
    else if v.isKeywordIn [.NULL, .UNIQUE] then all [shift, conflictClause]
    else if v.isKeyword .CHECK then all [shift, parenthesizedExpr]
    else if v.isKeyword .DEFAULT then all [shift, defaultValue]
    else if v.isKeyword .COLLATE then all [shift, collationName]
    else if v.isKeyword .REFERENCES then foreignKeyClause
    else if v.isKeywordIn [.GENERATED, .AS] then generatedColumn
    else expecting "expecting column constraint"

/-- `[CONSTRAINT name] constraint` -/
def columnConstraint : Rule :=
  node .columnConstraint <| all [
    onlyIf (·.isKeyword .CONSTRAINT) (all [shift, nameToken "constraint name"]),
    constraintBody]

/-- **`name [type-name] constraint …`** -/
def columnDefinition : Rule :=
  node .columnDefinition <| all [
    name .columnName "column name",
    onlyIf isTypeWord typeName,
    loop startsConstraint columnConstraint]

end TolerantSql.Rule
