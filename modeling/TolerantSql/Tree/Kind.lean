/-!
# Kinds of tree nodes

What a group of tokens means, as opposed to what kind of token each of them is.
A kind has a display name, used where trees are shown, and a tag, used where
they are stored; the two differ for three kinds only.
-/

namespace TolerantSql

/-- **The kind of a tree node.** The operator kinds from `or` to `unary` stand
in the order of binding strength, loosest first. `token` and the three error
kinds are the kinds of leaves, and `skipped` holds the tokens that recovery
passed over. -/
inductive NodeKind where
  | sqlStatement | alterTable | select | analyze | attach | begin | tableName | schemaName
  | columnName | columnAlias | renameTo | renameColumn | addColumn | dropColumn
  | columnDefinition | typeName | signedNumber | columnConstraint | conflictClause
  | foreignKeyClause | resultColumn | or | and | not | equality | comparison | bitwise | additive
  | multiplicative | concatenation | collate | unary | columnReference | functionCall
  | filterClause | overClause | partitionBy | orderBy | orderingTerm | frameSpec | frameBound
  | frameExclude | parenthesized | subquery | cast | existsTest | caseExpr | whenArm | elseArm
  | raise | token | errorMissing | errorExpecting | errorUnexpectedEof | skipped
  deriving DecidableEq

namespace NodeKind

/-- Every kind. -/
def all : List NodeKind :=
  [.sqlStatement, .alterTable, .select, .analyze, .attach, .begin, .tableName, .schemaName,
   .columnName, .columnAlias, .renameTo, .renameColumn, .addColumn, .dropColumn,
   .columnDefinition, .typeName, .signedNumber, .columnConstraint, .conflictClause,
   .foreignKeyClause, .resultColumn, .or, .and, .not, .equality, .comparison, .bitwise,
   .additive, .multiplicative, .concatenation, .collate, .unary, .columnReference, .functionCall,
   .filterClause, .overClause, .partitionBy, .orderBy, .orderingTerm, .frameSpec, .frameBound,
   .frameExclude, .parenthesized, .subquery, .cast, .existsTest, .caseExpr, .whenArm, .elseArm,
   .raise, .token, .errorMissing, .errorExpecting, .errorUnexpectedEof, .skipped]

/-- The name shown in rendered trees. -/
def name : NodeKind → String
  | sqlStatement => "SQLStatement"
  | alterTable => "AlterTable"
  | select => "Select"
  | analyze => "Analyze"
  | attach => "Attach"
  | begin => "Begin"
  | tableName => "TableName"
  | schemaName => "SchemaName"
  | columnName => "ColumnName"
  | columnAlias => "ColumnAlias"
  | renameTo => "RenameTo"
  | renameColumn => "RenameColumn"
  | addColumn => "AddColumn"
  | dropColumn => "DropColumn"
  | columnDefinition => "ColumnDefinition"
  | typeName => "TypeName"
  | signedNumber => "SignedNumber"
  | columnConstraint => "ColumnConstraint"
  | conflictClause => "ConflictClause"
  | foreignKeyClause => "ForeignKeyClause"
  | resultColumn => "ResultColumn"
  | or => "Or"
  | and => "And"
  | not => "Not"
  | equality => "Equality"
  | comparison => "Comparison"
  | bitwise => "Bitwise"
  | additive => "Additive"
  | multiplicative => "Multiplicative"
  | concatenation => "Concatenation"
  | collate => "Collate"
  | unary => "Unary"
  | columnReference => "ColumnReference"
  | functionCall => "FunctionCall"
  | filterClause => "FilterClause"
  | overClause => "OverClause"
  | partitionBy => "PartitionBy"
  | orderBy => "OrderBy"
  | orderingTerm => "OrderingTerm"
  | frameSpec => "FrameSpec"
  | frameBound => "FrameBound"
  | frameExclude => "FrameExclude"
  | parenthesized => "Parenthesized"
  | subquery => "Subquery"
  | cast => "Cast"
  | existsTest => "Exists"
  | caseExpr => "Case"
  | whenArm => "When"
  | elseArm => "Else"
  | raise => "Raise"
  | token => "Token"
  | errorMissing => "ErrorMissing"
  | errorExpecting => "ErrorExpecting"
  | errorUnexpectedEof => "ErrorUnexpectedEOF"
  | skipped => "Skipped"

/-- The name under which a kind is stored. -/
def tag : NodeKind → String
  | sqlStatement => "SqlStatement"
  | token => "Terminal"
  | errorUnexpectedEof => "ErrorUnexpectedEof"
  | kind => kind.name

/-- Kinds of nodes that wrap a single name. -/
def isName : NodeKind → Bool
  | tableName | schemaName | columnName | columnAlias => true
  | _ => false

/-- Kinds of error leaves. -/
def isError : NodeKind → Bool
  | errorMissing | errorExpecting | errorUnexpectedEof => true
  | _ => false

end NodeKind

end TolerantSql
