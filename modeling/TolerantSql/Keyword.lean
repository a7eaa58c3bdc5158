/-!
# Keywords

The words that SQL reserves, each named by its own capital spelling. A bare
word is a keyword when it reads as one of these spellings with the case of
ASCII letters ignored; a quoted identifier never is.
-/

namespace TolerantSql

/-- **A reserved word of the dialect.** -/
inductive Keyword where
  | ABORT | ACTION | ADD | AFTER | ALL | ALTER | ALWAYS | ANALYZE | AND | AS | ASC | ATTACH
  | AUTOINCREMENT | BEFORE | BEGIN | BETWEEN | BY | CASCADE | CASE | CAST | CHECK | COLLATE
  | COLUMN | COMMIT | CONFLICT | CONSTRAINT | CREATE | CROSS | CURRENT | CURRENT_DATE
  | CURRENT_TIME | CURRENT_TIMESTAMP | DATABASE | DEFAULT | DEFERRABLE | DEFERRED | DELETE | DESC
  | DETACH | DISTINCT | DO | DROP | EACH | ELSE | END | ESCAPE | EXCEPT | EXCLUDE | EXCLUSIVE
  | EXISTS | EXPLAIN | FAIL | FILTER | FIRST | FOLLOWING | FOR | FOREIGN | FROM | FULL
  | GENERATED | GLOB | GROUP | GROUPS | HAVING | IF | IGNORE | IMMEDIATE | IN | INDEX | INDEXED
  | INITIALLY | INNER | INSERT | INSTEAD | INTERSECT | INTO | IS | ISNULL | JOIN | KEY | LAST
  | LEFT | LIKE | LIMIT | MATCH | MATERIALIZED | NATURAL | NO | NOT | NOTHING | NOTNULL | NULL
  | NULLS | OF | OFFSET | ON | OR | ORDER | OTHERS | OUTER | OVER | PARTITION | PLAN | PRAGMA
  | PRECEDING | PRIMARY | QUERY | RAISE | RANGE | RECURSIVE | REFERENCES | REGEXP | REINDEX
  | RELEASE | RENAME | REPLACE | RESTRICT | RETURNING | RIGHT | ROLLBACK | ROW | ROWS | SAVEPOINT
  | SELECT | SET | TABLE | TEMP | TEMPORARY | THEN | TIES | TO | TRANSACTION | TRIGGER
  | UNBOUNDED | UNION | UNIQUE | UPDATE | USING | VACUUM | VALUES | VIEW | VIRTUAL | WHEN | WHERE
  | WINDOW | WITH | WITHOUT
  deriving DecidableEq

namespace Keyword

/-- Every keyword, in alphabetical order. -/
def all : List Keyword :=
  [.ABORT, .ACTION, .ADD, .AFTER, .ALL, .ALTER, .ALWAYS, .ANALYZE, .AND, .AS, .ASC, .ATTACH,
   .AUTOINCREMENT, .BEFORE, .BEGIN, .BETWEEN, .BY, .CASCADE, .CASE, .CAST, .CHECK, .COLLATE,
   .COLUMN, .COMMIT, .CONFLICT, .CONSTRAINT, .CREATE, .CROSS, .CURRENT, .CURRENT_DATE,
   .CURRENT_TIME, .CURRENT_TIMESTAMP, .DATABASE, .DEFAULT, .DEFERRABLE, .DEFERRED, .DELETE,
   .DESC, .DETACH, .DISTINCT, .DO, .DROP, .EACH, .ELSE, .END, .ESCAPE, .EXCEPT, .EXCLUDE,
   .EXCLUSIVE, .EXISTS, .EXPLAIN, .FAIL, .FILTER, .FIRST, .FOLLOWING, .FOR, .FOREIGN, .FROM,
   .FULL, .GENERATED, .GLOB, .GROUP, .GROUPS, .HAVING, .IF, .IGNORE, .IMMEDIATE, .IN, .INDEX,
   .INDEXED, .INITIALLY, .INNER, .INSERT, .INSTEAD, .INTERSECT, .INTO, .IS, .ISNULL, .JOIN, .KEY,
   .LAST, .LEFT, .LIKE, .LIMIT, .MATCH, .MATERIALIZED, .NATURAL, .NO, .NOT, .NOTHING, .NOTNULL,
   .NULL, .NULLS, .OF, .OFFSET, .ON, .OR, .ORDER, .OTHERS, .OUTER, .OVER, .PARTITION, .PLAN,
   .PRAGMA, .PRECEDING, .PRIMARY, .QUERY, .RAISE, .RANGE, .RECURSIVE, .REFERENCES, .REGEXP,
   .REINDEX, .RELEASE, .RENAME, .REPLACE, .RESTRICT, .RETURNING, .RIGHT, .ROLLBACK, .ROW, .ROWS,
   .SAVEPOINT, .SELECT, .SET, .TABLE, .TEMP, .TEMPORARY, .THEN, .TIES, .TO, .TRANSACTION,
   .TRIGGER, .UNBOUNDED, .UNION, .UNIQUE, .UPDATE, .USING, .VACUUM, .VALUES, .VIEW, .VIRTUAL,
   .WHEN, .WHERE, .WINDOW, .WITH, .WITHOUT]

/-- The capital spelling of a keyword. -/
def spelling : Keyword → String
  | .ABORT => "ABORT"
  | .ACTION => "ACTION"
  | .ADD => "ADD"
  | .AFTER => "AFTER"
  | .ALL => "ALL"
  | .ALTER => "ALTER"
  | .ALWAYS => "ALWAYS"
  | .ANALYZE => "ANALYZE"
  | .AND => "AND"
  | .AS => "AS"
  | .ASC => "ASC"
  | .ATTACH => "ATTACH"
  | .AUTOINCREMENT => "AUTOINCREMENT"
  | .BEFORE => "BEFORE"
  | .BEGIN => "BEGIN"
  | .BETWEEN => "BETWEEN"
  | .BY => "BY"
  | .CASCADE => "CASCADE"
  | .CASE => "CASE"
  | .CAST => "CAST"
  | .CHECK => "CHECK"
  | .COLLATE => "COLLATE"
  | .COLUMN => "COLUMN"
  | .COMMIT => "COMMIT"
  | .CONFLICT => "CONFLICT"
  | .CONSTRAINT => "CONSTRAINT"
  | .CREATE => "CREATE"
  | .CROSS => "CROSS"
  | .CURRENT => "CURRENT"
  | .CURRENT_DATE => "CURRENT_DATE"
  | .CURRENT_TIME => "CURRENT_TIME"
  | .CURRENT_TIMESTAMP => "CURRENT_TIMESTAMP"
  | .DATABASE => "DATABASE"
  | .DEFAULT => "DEFAULT"
  | .DEFERRABLE => "DEFERRABLE"
  | .DEFERRED => "DEFERRED"
  | .DELETE => "DELETE"
  | .DESC => "DESC"
  | .DETACH => "DETACH"
  | .DISTINCT => "DISTINCT"
  | .DO => "DO"
  | .DROP => "DROP"
  | .EACH => "EACH"
  | .ELSE => "ELSE"
  | .END => "END"
  | .ESCAPE => "ESCAPE"
  | .EXCEPT => "EXCEPT"
  | .EXCLUDE => "EXCLUDE"
  | .EXCLUSIVE => "EXCLUSIVE"
  | .EXISTS => "EXISTS"
  | .EXPLAIN => "EXPLAIN"
  | .FAIL => "FAIL"
  | .FILTER => "FILTER"
  | .FIRST => "FIRST"
  | .FOLLOWING => "FOLLOWING"
  | .FOR => "FOR"
  | .FOREIGN => "FOREIGN"
  | .FROM => "FROM"
  | .FULL => "FULL"
  | .GENERATED => "GENERATED"
  | .GLOB => "GLOB"
  | .GROUP => "GROUP"
  | .GROUPS => "GROUPS"
  | .HAVING => "HAVING"
  | .IF => "IF"
  | .IGNORE => "IGNORE"
  | .IMMEDIATE => "IMMEDIATE"
  | .IN => "IN"
  | .INDEX => "INDEX"
  | .INDEXED => "INDEXED"
  | .INITIALLY => "INITIALLY"
  | .INNER => "INNER"
  | .INSERT => "INSERT"
  | .INSTEAD => "INSTEAD"
  | .INTERSECT => "INTERSECT"
  | .INTO => "INTO"
  | .IS => "IS"
  | .ISNULL => "ISNULL"
  | .JOIN => "JOIN"
  | .KEY => "KEY"
  | .LAST => "LAST"
  | .LEFT => "LEFT"
  | .LIKE => "LIKE"
  | .LIMIT => "LIMIT"
  | .MATCH => "MATCH"
  | .MATERIALIZED => "MATERIALIZED"
  | .NATURAL => "NATURAL"
  | .NO => "NO"
  | .NOT => "NOT"
  | .NOTHING => "NOTHING"
  | .NOTNULL => "NOTNULL"
  | .NULL => "NULL"
  | .NULLS => "NULLS"
  | .OF => "OF"
  | .OFFSET => "OFFSET"
  | .ON => "ON"
  | .OR => "OR"
  | .ORDER => "ORDER"
  | .OTHERS => "OTHERS"
  | .OUTER => "OUTER"
  | .OVER => "OVER"
  | .PARTITION => "PARTITION"
  | .PLAN => "PLAN"
  | .PRAGMA => "PRAGMA"
  | .PRECEDING => "PRECEDING"
  | .PRIMARY => "PRIMARY"
  | .QUERY => "QUERY"
  | .RAISE => "RAISE"
  | .RANGE => "RANGE"
  | .RECURSIVE => "RECURSIVE"
  | .REFERENCES => "REFERENCES"
  | .REGEXP => "REGEXP"
  | .REINDEX => "REINDEX"
  | .RELEASE => "RELEASE"
  | .RENAME => "RENAME"
  | .REPLACE => "REPLACE"
  | .RESTRICT => "RESTRICT"
  | .RETURNING => "RETURNING"
  | .RIGHT => "RIGHT"
  | .ROLLBACK => "ROLLBACK"
  | .ROW => "ROW"
  | .ROWS => "ROWS"
  | .SAVEPOINT => "SAVEPOINT"
  | .SELECT => "SELECT"
  | .SET => "SET"
  | .TABLE => "TABLE"
  | .TEMP => "TEMP"
  | .TEMPORARY => "TEMPORARY"
  | .THEN => "THEN"
  | .TIES => "TIES"
  | .TO => "TO"
  | .TRANSACTION => "TRANSACTION"
  | .TRIGGER => "TRIGGER"
  | .UNBOUNDED => "UNBOUNDED"
  | .UNION => "UNION"
  | .UNIQUE => "UNIQUE"
  | .UPDATE => "UPDATE"
  | .USING => "USING"
  | .VACUUM => "VACUUM"
  | .VALUES => "VALUES"
  | .VIEW => "VIEW"
  | .VIRTUAL => "VIRTUAL"
  | .WHEN => "WHEN"
  | .WHERE => "WHERE"
  | .WINDOW => "WINDOW"
  | .WITH => "WITH"
  | .WITHOUT => "WITHOUT"

/-- **The keyword that a word spells**, whatever the case of its letters. -/
def ofWord? (word : String) : Option Keyword :=
  all.find? fun keyword => keyword.spelling == word.toUpper

end Keyword

end TolerantSql
