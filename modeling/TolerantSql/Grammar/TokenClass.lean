import TolerantSql.Token.Kind

/-!
# Classes of tokens

The sets of token kinds by which grammar rules decide what comes next: what can
be a name, what can start an expression, what can only follow one, what ends a
statement. Recovery stops at these sets too, so they are also what keeps an
error local.
-/

namespace TolerantSql

/-- Keywords that may stand for a name. -/
def fallbackKeywords : List Keyword :=
  [.ABORT, .ACTION, .AFTER, .ALWAYS, .ANALYZE, .ASC, .ATTACH, .BEFORE, .BEGIN, .BY, .CASCADE,
    .CAST, .COLUMN, .CONFLICT, .CURRENT, .DATABASE, .DEFERRED, .DESC, .DETACH, .DO, .EACH, .END,
    .EXCLUDE, .EXCLUSIVE, .EXPLAIN, .FAIL, .FIRST, .FOLLOWING, .FOR, .GENERATED, .GROUPS, .IF,
    .IGNORE, .IMMEDIATE, .INITIALLY, .INSTEAD, .KEY, .LAST, .MATERIALIZED, .NO, .NULLS, .OF,
    .OFFSET, .OTHERS, .PARTITION, .PLAN, .PRAGMA, .PRECEDING, .QUERY, .RAISE, .RANGE, .RECURSIVE,
    .REINDEX, .RELEASE, .RENAME, .REPLACE, .RESTRICT, .ROW, .ROWS, .SAVEPOINT, .TEMP, .TIES,
    .TRIGGER, .UNBOUNDED, .VACUUM, .VIEW, .VIRTUAL, .WITH, .WITHOUT]

/-- Keywords that can only come after a complete expression. -/
def afterExpressionKeywords : List Keyword :=
  [.AS, .AND, .ASC, .BETWEEN, .CHECK, .COLLATE, .CONSTRAINT, .DEFAULT, .DESC, .ELSE, .END,
    .ESCAPE, .EXCEPT, .EXCLUDE, .FILTER, .FOLLOWING, .FROM, .GENERATED, .GLOB, .GROUP, .GROUPS,
    .HAVING, .IN, .INTERSECT, .IS, .ISNULL, .LIKE, .LIMIT, .MATCH, .NOTNULL, .NULLS, .OFFSET, .OR,
    .ORDER, .OVER, .PRECEDING, .PRIMARY, .RANGE, .REFERENCES, .REGEXP, .RETURNING, .ROWS, .THEN,
    .UNION, .UNIQUE, .WHEN, .WHERE, .WINDOW]

/-- Keywords that begin a statement. -/
def statementKeywords : List Keyword :=
  [.EXPLAIN, .ALTER, .SELECT, .ANALYZE, .ATTACH, .BEGIN]

/-- Keywords of the clauses behind the columns of a query. -/
def clauseKeywords : List Keyword :=
  [.FROM, .WHERE, .GROUP, .HAVING, .ORDER, .LIMIT, .WINDOW, .UNION, .INTERSECT, .EXCEPT,
   .RETURNING]

namespace TokenKind

/-- Whether the kind is one of the given keywords. -/
def isKeywordIn (words : List Keyword) (kind : TokenKind) : Bool :=
  kind.keyword?.any words.contains

/-- Tokens that can name a schema, table, column or function. -/
def isName (kind : TokenKind) : Bool :=
  kind == identifier || kind.isKeywordIn fallbackKeywords

/-- The tokens that end a statement: a semicolon and the end of the input. -/
def endsStatement : TokenKind → Bool
  | semicolon | eof => true
  | _ => false

/-- Keywords that begin a statement. -/
def startsStatement (kind : TokenKind) : Bool := kind.isKeywordIn statementKeywords

/-- Prefix operators. -/
def isUnaryOperator : TokenKind → Bool
  | bitNot | plus | minus => true
  | _ => false

/-- Literals that need no further look: numbers, strings, blobs, bind
parameters and the constants that are keywords. -/
def isLiteral (kind : TokenKind) : Bool :=
  kind == numeric || kind == string || kind == blob || kind.isVariable
    || kind.isKeywordIn [.NULL, .CURRENT_DATE, .CURRENT_TIME, .CURRENT_TIMESTAMP]

/-- **Tokens that can only stand behind a complete expression.** Where an
expression should be, such a token means that the expression was left out. -/
def followsExpression : TokenKind → Bool
  | rightParen | comma | semicolon | eof | dot | eq | eqEq | notEq | ltGt | lt | ltEq | gt
  | gtEq | leftShift | rightShift | bitAnd | bitOr | star | slash | percent | concat | arrow
  | doubleArrow => true
  | kind => kind.isKeywordIn afterExpressionKeywords

/-- Tokens that end a list of expressions. -/
def followsExpressionList (kind : TokenKind) : Bool :=
  kind.followsExpression && kind != comma

/-- Tokens that can start an expression without operators. -/
def startsPrimary (kind : TokenKind) : Bool :=
  kind.isLiteral || kind == leftParen || kind == identifier
    || kind.isKeywordIn [.CASE, .EXISTS]
    || (kind.isKeywordIn fallbackKeywords && !kind.followsExpression)

/-- **Tokens that can start an expression.** -/
def startsExpression (kind : TokenKind) : Bool :=
  kind.startsPrimary || kind.isUnaryOperator || kind == keyword .NOT

/-- Tokens that can start a column of a query. -/
def startsResultColumn (kind : TokenKind) : Bool := kind == star || kind.startsExpression

/-- Tokens that end the columns of a query. -/
def followsResultColumns (kind : TokenKind) : Bool :=
  kind == rightParen || kind.endsStatement || kind.isKeywordIn clauseKeywords

/-- Tokens that end a list of column names. -/
def followsColumnNames (kind : TokenKind) : Bool := kind == rightParen || kind.endsStatement

end TokenKind

/-- **Tokens at which a skip ends.** Every such set holds the semicolon, so that an
error cannot spread into the next statement. -/
structure StopSet where
  holds : TokenKind → Bool
  semicolon : holds .semicolon = true

namespace StopSet

instance : CoeFun StopSet fun _ => TokenKind → Bool := ⟨holds⟩

theorem not_semicolon (sync : StopSet) : (!sync .semicolon) = false := by
  rw [sync.semicolon]
  rfl

/-- A closing parenthesis in the same statement. -/
def closing : StopSet := ⟨fun kind => kind == .rightParen || kind == .semicolon, rfl⟩

/-- Tokens that can start an expression or follow one. -/
def expression : StopSet :=
  ⟨fun kind => kind.startsExpression || kind.followsExpression, rfl⟩

/-- The end of a statement. -/
def statementEnd : StopSet := ⟨TokenKind.endsStatement, rfl⟩

/-- Where a statement begins or ends. -/
def statement : StopSet := ⟨fun kind => kind.startsStatement || kind.endsStatement, rfl⟩

/-- The semicolon alone. -/
def terminator : StopSet := ⟨(· == .semicolon), rfl⟩

end StopSet

/-- **Tokens at which a list ends.** The end of the input is one of them. -/
structure FollowSet extends StopSet where
  eof : holds .eof = true

namespace FollowSet

instance : CoeFun FollowSet fun _ => TokenKind → Bool := ⟨fun follows => follows.holds⟩

/-- The end of a list of expressions. -/
def expressionList : FollowSet := ⟨⟨TokenKind.followsExpressionList, rfl⟩, rfl⟩

/-- The end of the columns of a query. -/
def resultColumns : FollowSet := ⟨⟨TokenKind.followsResultColumns, rfl⟩, rfl⟩

/-- The end of a list of column names. -/
def columnNames : FollowSet := ⟨⟨TokenKind.followsColumnNames, rfl⟩, rfl⟩

end FollowSet

end TolerantSql
