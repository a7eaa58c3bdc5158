import TolerantSql.Grammar.ColumnDefinition
import TolerantSql.Proofs.ExpressionGrammar

/-!
# A grammar of column definitions

Which trees are the parts of a column definition, said without a word about how they are
found. A `ColumnPhrase` is a sequence of trees that stands where a certain `ColumnPart`
may stand; a part that may be left out is also the empty sequence. The expressions in
parentheses are those of the grammar of expressions, if they are nested no more deeply
than the parser goes.

Nothing separates the constraints of a column from each other, nor the clauses of a
constraint. Where each ends is told by the tokens that begin the next one, and no
phrase has to say it.
-/

namespace TolerantSql

/-- **The parts of a column definition.** -/
inductive ColumnPart where
  /-- `[+ | -] number` -/
  | number
  /-- `( number [, number] )`, if it is there -/
  | size
  /-- A type name, if it is there. -/
  | type
  /-- `ON CONFLICT action`, if it is there -/
  | conflict
  /-- `( expr )` -/
  | operand
  /-- What stands behind `DEFAULT`. -/
  | value
  /-- `STORED` or `VIRTUAL`, if it is there -/
  | storage
  /-- Names of columns separated by commas. -/
  | names
  /-- Names of columns in parentheses, if they are there. -/
  | columns
  /-- `ON DELETE action`, `ON UPDATE action` and `MATCH name` in any number. -/
  | clauses
  /-- When a reference is checked, if it is said. -/
  | deferral
  /-- A constraint without its name. -/
  | body
  | constraint

/-- **The phrases of column definitions.** -/
inductive ColumnPhrase : ColumnPart → Forest → Prop where
  | number {kinds : List TokenKind} {f : Forest} (hf : Spells kinds f)
    (hkinds : kinds ∈ [[.numeric], [.plus, .numeric], [.minus, .numeric]]) :
    ColumnPhrase .number [.node .signedNumber f]
  -- types
  | sizeless : ColumnPhrase .size []
  | length {a f e : Forest} (ha : Spells [.leftParen] a) (hf : ColumnPhrase .number f)
    (he : Spells [.rightParen] e) : ColumnPhrase .size (a ++ (f ++ e))
  | precision {a f c g e : Forest} (ha : Spells [.leftParen] a) (hf : ColumnPhrase .number f)
    (hc : Spells [.comma] c) (hg : ColumnPhrase .number g) (he : Spells [.rightParen] e) :
    ColumnPhrase .size (a ++ (f ++ (c ++ (g ++ e))))
  | untyped : ColumnPhrase .type []
  | typed {more : Nat} {names size : Forest}
    (hnames : Spells (List.replicate (more + 1) .identifier) names)
    (hsize : ColumnPhrase .size size) : ColumnPhrase .type [.node .typeName (names ++ size)]
  -- constraints
  | constraint {f : Forest} (h : ColumnPhrase .body f) :
    ColumnPhrase .constraint [.node .columnConstraint f]
  /-- `CONSTRAINT name constraint` -/
  | named {a f : Forest} (ha : Spells [.keyword .CONSTRAINT, .identifier] a)
    (h : ColumnPhrase .body f) : ColumnPhrase .constraint [.node .columnConstraint (a ++ f)]
  /-- `PRIMARY KEY [ASC | DESC] [ON CONFLICT action] [AUTOINCREMENT]` -/
  | primaryKey {words words' : List Keyword} {f c g : Forest} (hf : SpellsWords words f)
    (hwords : words ∈ [[.PRIMARY, .KEY], [.PRIMARY, .KEY, .ASC], [.PRIMARY, .KEY, .DESC]])
    (hc : ColumnPhrase .conflict c) (hg : SpellsWords words' g)
    (hwords' : words' ∈ [[], [.AUTOINCREMENT]]) : ColumnPhrase .body (f ++ (c ++ g))
  /-- `NOT NULL [ON CONFLICT action]` or `UNIQUE [ON CONFLICT action]` -/
  | unique {words : List Keyword} {f c : Forest} (hf : SpellsWords words f)
    (hwords : words ∈ [[.NOT, .NULL], [.UNIQUE]]) (hc : ColumnPhrase .conflict c) :
    ColumnPhrase .body (f ++ c)
  | null {f : Forest} (hf : SpellsWords [.NULL] f) : ColumnPhrase .body f
  /-- `CHECK ( expr )` -/
  | check {f e : Forest} (hf : SpellsWords [.CHECK] f) (he : ColumnPhrase .operand e) :
    ColumnPhrase .body (f ++ e)
  | default {f v : Forest} (hf : SpellsWords [.DEFAULT] f) (hv : ColumnPhrase .value v) :
    ColumnPhrase .body (f ++ v)
  | collate {f : Forest} (hf : Spells [.keyword .COLLATE, .identifier] f) : ColumnPhrase .body f
  /-- `REFERENCES table [( column, … )] [clauses] [deferral]` -/
  | references {f table columns clauses deferral : Forest} (hf : SpellsWords [.REFERENCES] f)
    (htable : Spells [.identifier] table) (hcolumns : ColumnPhrase .columns columns)
    (hclauses : ColumnPhrase .clauses clauses) (hdeferral : ColumnPhrase .deferral deferral) :
    ColumnPhrase .body [.node .foreignKeyClause
      (f ++ ([.node .tableName table] ++ (columns ++ (clauses ++ deferral))))]
  /-- `[GENERATED ALWAYS] AS ( expr ) [STORED | VIRTUAL]` -/
  | generated {words : List Keyword} {f e g : Forest} (hf : SpellsWords words f)
    (hwords : words ∈ [[.AS], [.GENERATED, .ALWAYS, .AS]]) (he : ColumnPhrase .operand e)
    (hg : ColumnPhrase .storage g) : ColumnPhrase .body (f ++ (e ++ g))
  -- what stands inside constraints
  | noConflict : ColumnPhrase .conflict []
  | conflict {action : Keyword} {f : Forest}
    (haction : action ∈ [.ROLLBACK, .ABORT, .FAIL, .IGNORE, .REPLACE])
    (hf : SpellsWords [.ON, .CONFLICT, action] f) :
    ColumnPhrase .conflict [.node .conflictClause f]
  | operand {n : Nat} {a e b : Forest} (ha : Spells [.leftParen] a) (hn : n ≤ Rule.maxDepth)
    (h : Phrase .inner n e) (hb : Spells [.rightParen] b) : ColumnPhrase .operand (a ++ (e ++ b))
  | signed {f : Forest} (h : ColumnPhrase .number f) : ColumnPhrase .value f
  | literal {t : Token} (ht : t.kind ∈ [.string, .blob, .keyword .NULL, .keyword .CURRENT_DATE,
      .keyword .CURRENT_TIME, .keyword .CURRENT_TIMESTAMP, .identifier]) :
    ColumnPhrase .value [.token t]
  | computed {f : Forest} (h : ColumnPhrase .operand f) : ColumnPhrase .value f
  | unstored : ColumnPhrase .storage []
  | virtual {f : Forest} (hf : SpellsWords [.VIRTUAL] f) : ColumnPhrase .storage f
  /-- `STORED` is no keyword. -/
  | stored {t : Token} (ht : t.kind = .identifier) (hword : t.text.toUpper = "STORED") :
    ColumnPhrase .storage [.token t]
  -- references
  | name {f : Forest} (hf : Spells [.identifier] f) : ColumnPhrase .names [.node .columnName f]
  | comma {f c g : Forest} (hf : Spells [.identifier] f) (hc : Spells [.comma] c)
    (hg : ColumnPhrase .names g) : ColumnPhrase .names ([.node .columnName f] ++ (c ++ g))
  | noColumns : ColumnPhrase .columns []
  | columns {a f e : Forest} (ha : Spells [.leftParen] a) (hf : ColumnPhrase .names f)
    (he : Spells [.rightParen] e) : ColumnPhrase .columns (a ++ (f ++ e))
  | noClauses : ColumnPhrase .clauses []
  | action {event : Keyword} {action : List Keyword} {f g : Forest}
    (hevent : event ∈ [.DELETE, .UPDATE])
    (haction : action ∈ [[.SET, .NULL], [.SET, .DEFAULT], [.CASCADE], [.RESTRICT], [.NO, .ACTION]])
    (hf : SpellsWords (.ON :: event :: action) f) (hg : ColumnPhrase .clauses g) :
    ColumnPhrase .clauses (f ++ g)
  | matching {f g : Forest} (hf : Spells [.keyword .MATCH, .identifier] f)
    (hg : ColumnPhrase .clauses g) : ColumnPhrase .clauses (f ++ g)
  | noDeferral : ColumnPhrase .deferral []
  /-- `[NOT] DEFERRABLE [INITIALLY DEFERRED | INITIALLY IMMEDIATE]` -/
  | deferrable {words words' : List Keyword} {f g : Forest} (hf : SpellsWords words f)
    (hwords : words ∈ [[.DEFERRABLE], [.NOT, .DEFERRABLE]]) (hg : SpellsWords words' g)
    (hwords' : words' ∈ [[], [.INITIALLY, .DEFERRED], [.INITIALLY, .IMMEDIATE]]) :
    ColumnPhrase .deferral (f ++ g)

/-- **A column definition**: a name, an optional type and constraints. -/
def columnTree (name : Token) (type constraints : Forest) : Tree :=
  .node .columnDefinition (.node .columnName [.token name] :: (type ++ constraints))

end TolerantSql
