import TolerantSql.Grammar.Expression

/-!
# A grammar of expressions

Which trees are expressions, said without a word about how they are found. A
`Phrase` is a sequence of trees that stands where a certain `Part` of an expression
may stand. Operands have ranks, and an operand of one rank is one of every looser
rank (`Phrase.loosen`); an operator has operands of tighter ranks than its own, so
that no tree needs parentheses which are not in it.

Phrases are graded by a bound on how deeply they nest: an expression inside
another one counts, and so does the operand of a prefix operator.
-/

namespace TolerantSql

/-- **Tokens of given kinds**, side by side. -/
def Spells : List TokenKind → Forest → Prop
  | [], f => f = []
  | kind :: kinds, f => ∃ t rest, f = .token t :: rest ∧ t.kind = kind ∧ Spells kinds rest

/-- Given keywords, side by side. -/
abbrev SpellsWords (words : List Keyword) : Forest → Prop := Spells (words.map .keyword)

/-- Levels of which all operators stand between two operands. -/
def Level.binaries : List Level :=
  [.or, .and, .comparison, .bitwise, .additive, .multiplicative, .concatenation]

/-- What stands behind an operand or inside `CASE`, and may be repeated or left out
there. -/
inductive Element where
  /-- An operator of a level and its right operand. -/
  | link (level : Level)
  /-- `COLLATE` and a name. -/
  | collation
  /-- An operator of the equality level with what stands behind it. -/
  | test
  /-- `ESCAPE` and an operand. -/
  | escape
  /-- `WHEN … THEN …` -/
  | arm
  /-- `ELSE …` -/
  | otherwise

/-- **The parts of an expression.** -/
inductive Part where
  /-- An operand that binds at least as tightly as the operators of a rank. -/
  | operand (rank : Nat)
  /-- An expression inside another one. -/
  | inner
  /-- Inner expressions separated by commas, one at least. -/
  | items
  | one (element : Element)
  /-- One or more. -/
  | many (element : Element)
  /-- At most one. -/
  | optional (element : Element)

/-- **The phrases of expressions**: which trees are a part of an expression that is
nested at most so deeply. -/
inductive Phrase : Part → Nat → Forest → Prop where
  -- operands
  | loosen {rank n : Nat} {f : Forest} (h : Phrase (.operand (rank + 1)) n f) :
    Phrase (.operand rank) n f
  | literal {n : Nat} {t : Token} (h : t.kind.isLiteral = true) :
    Phrase (.operand 11) n [.token t]
  /-- `name [. name [. name]]` -/
  | column {n : Nat} {kinds : List TokenKind} {f : Forest} (hf : Spells kinds f)
    (hkinds : kinds ∈ [[.identifier], [.identifier, .dot, .identifier],
      [.identifier, .dot, .identifier, .dot, .identifier]]) :
    Phrase (.operand 11) n [.node .columnReference f]
  /-- `( expr, … )` -/
  | parenthesized {n : Nat} {f g e : Forest} (hf : Spells [.leftParen] f)
    (h : Phrase .items n g) (he : Spells [.rightParen] e) :
    Phrase (.operand 11) n [.node .parenthesized (f ++ (g ++ e))]
  /-- `name ()` or `name (*)` -/
  | call {n : Nat} {kinds : List TokenKind} {f : Forest} (hf : Spells kinds f)
    (hkinds : kinds ∈ [[.identifier, .leftParen, .rightParen],
      [.identifier, .leftParen, .star, .rightParen]]) :
    Phrase (.operand 11) n [.node .functionCall f]
  /-- `name ([DISTINCT] expr, …)` -/
  | callWith {n : Nat} {kinds : List TokenKind} {f g e : Forest} (hf : Spells kinds f)
    (hkinds : kinds ∈ [[.identifier, .leftParen],
      [.identifier, .leftParen, .keyword .DISTINCT]])
    (h : Phrase .items n g) (he : Spells [.rightParen] e) :
    Phrase (.operand 11) n [.node .functionCall (f ++ (g ++ e))]
  /-- `CAST ( expr AS name … )` -/
  | cast {n more : Nat} {f g a names e : Forest} (hf : Spells [.keyword .CAST, .leftParen] f)
    (h : Phrase .inner n g) (ha : SpellsWords [.AS] a)
    (hnames : Spells (List.replicate (more + 1) .identifier) names)
    (he : Spells [.rightParen] e) :
    Phrase (.operand 11) n [.node .cast (f ++ (g ++ (a ++ ([.node .typeName names] ++ e))))]
  /-- `CASE WHEN … THEN … … [ELSE …] END` -/
  | caseWhen {n : Nat} {f arms otherwise e : Forest} (hf : SpellsWords [.CASE] f)
    (harms : Phrase (.many .arm) n arms) (hotherwise : Phrase (.optional .otherwise) n otherwise)
    (he : SpellsWords [.END] e) :
    Phrase (.operand 11) n [.node .caseExpr (f ++ (arms ++ (otherwise ++ e)))]
  /-- `CASE expr WHEN … THEN … … [ELSE …] END` -/
  | caseOf {n : Nat} {f g arms otherwise e : Forest} (hf : SpellsWords [.CASE] f)
    (h : Phrase .inner n g) (harms : Phrase (.many .arm) n arms)
    (hotherwise : Phrase (.optional .otherwise) n otherwise) (he : SpellsWords [.END] e) :
    Phrase (.operand 11) n [.node .caseExpr (f ++ (g ++ (arms ++ (otherwise ++ e))))]
  -- operators
  | unary {n : Nat} {t : Token} {f : Forest} (ht : t.kind.isUnaryOperator = true)
    (h : Phrase (.operand Level.unary.rank) n f) :
    Phrase (.operand Level.unary.rank) (n + 1) [.node .unary ([.token t] ++ f)]
  | collate {n : Nat} {f g : Forest} (h : Phrase (.operand Level.unary.rank) n f)
    (hnames : Phrase (.many .collation) n g) :
    Phrase (.operand Level.collate.rank) n [.node .collate (f ++ g)]
  | binary {level : Level} {n : Nat} {f g : Forest} (hlevel : level ∈ Level.binaries)
    (h : Phrase (.operand (level.rank + 1)) n f) (hlinks : Phrase (.many (.link level)) n g) :
    Phrase (.operand level.rank) n [.node level.nodeKind (f ++ g)]
  | equality {n : Nat} {f g : Forest} (h : Phrase (.operand (Level.equality.rank + 1)) n f)
    (htests : Phrase (.many .test) n g) :
    Phrase (.operand Level.equality.rank) n [.node .equality (f ++ g)]
  | not {n : Nat} {f g : Forest} (hf : SpellsWords [.NOT] f)
    (h : Phrase (.operand Level.not.rank) n g) :
    Phrase (.operand Level.not.rank) (n + 1) [.node .not (f ++ g)]
  -- inner expressions
  | inner {n : Nat} {f : Forest} (h : Phrase (.operand 0) n f) : Phrase .inner (n + 1) f
  | item {n : Nat} {f : Forest} (h : Phrase .inner n f) : Phrase .items n f
  | comma {n : Nat} {f c g : Forest} (h : Phrase .inner n f) (hc : Spells [.comma] c)
    (hg : Phrase .items n g) : Phrase .items n (f ++ (c ++ g))
  -- what stands behind operands and inside `CASE`
  | link {level : Level} {n : Nat} {t : Token} {f : Forest}
    (ht : t.kind.operatorLevel? = some level) (h : Phrase (.operand (level.rank + 1)) n f) :
    Phrase (.one (.link level)) n ([.token t] ++ f)
  | collation {n : Nat} {f : Forest} (hf : Spells [.keyword .COLLATE, .identifier] f) :
    Phrase (.one .collation) n f
  /-- `= x`, `== x`, `!= x`, `<> x` -/
  | equals {n : Nat} {t : Token} {f : Forest} (ht : t.kind.operatorLevel? = some .equality)
    (h : Phrase (.operand (Level.equality.rank + 1)) n f) :
    Phrase (.one .test) n ([.token t] ++ f)
  /-- `IS [NOT] [DISTINCT FROM] x` -/
  | is {n : Nat} {words : List Keyword} {f g : Forest} (hf : SpellsWords words f)
    (hwords : words ∈ [[.IS], [.IS, .NOT], [.IS, .DISTINCT, .FROM], [.IS, .NOT, .DISTINCT, .FROM]])
    (h : Phrase (.operand (Level.equality.rank + 1)) n g) : Phrase (.one .test) n (f ++ g)
  | null {n : Nat} {words : List Keyword} {f : Forest} (hf : SpellsWords words f)
    (hwords : words ∈ [[.ISNULL], [.NOTNULL], [.NOT, .NULL]]) : Phrase (.one .test) n f
  /-- `[NOT] BETWEEN x AND y` -/
  | between {n : Nat} {words : List Keyword} {f g a g' : Forest} (hf : SpellsWords words f)
    (hwords : words ∈ [[.BETWEEN], [.NOT, .BETWEEN]])
    (h : Phrase (.operand (Level.equality.rank + 1)) n g) (ha : SpellsWords [.AND] a)
    (h' : Phrase (.operand (Level.equality.rank + 1)) n g') :
    Phrase (.one .test) n (f ++ (g ++ (a ++ g')))
  /-- `[NOT] LIKE x [ESCAPE y]` -/
  | pattern {n : Nat} {word : Keyword} {words : List Keyword} {f g e : Forest}
    (hword : word ∈ [.LIKE, .GLOB, .REGEXP, .MATCH]) (hf : SpellsWords words f)
    (hwords : words ∈ [[word], [.NOT, word]])
    (h : Phrase (.operand (Level.equality.rank + 1)) n g)
    (he : Phrase (.optional .escape) n e) : Phrase (.one .test) n (f ++ (g ++ e))
  /-- `[NOT] IN ()` -/
  | inNothing {n : Nat} {words : List Keyword} {f g : Forest} (hf : SpellsWords words f)
    (hwords : words ∈ [[.IN], [.NOT, .IN]]) (hg : Spells [.leftParen, .rightParen] g) :
    Phrase (.one .test) n (f ++ [.node .parenthesized g])
  /-- `[NOT] IN ( expr, … )` -/
  | inItems {n : Nat} {words : List Keyword} {f a g e : Forest} (hf : SpellsWords words f)
    (hwords : words ∈ [[.IN], [.NOT, .IN]]) (ha : Spells [.leftParen] a) (h : Phrase .items n g)
    (he : Spells [.rightParen] e) :
    Phrase (.one .test) n (f ++ [.node .parenthesized (a ++ (g ++ e))])
  /-- `[NOT] IN table` -/
  | inTable {n : Nat} {words : List Keyword} {f table : Forest} (hf : SpellsWords words f)
    (hwords : words ∈ [[.IN], [.NOT, .IN]]) (htable : Spells [.identifier] table) :
    Phrase (.one .test) n (f ++ [.node .tableName table])
  /-- `[NOT] IN schema . table` -/
  | inSchema {n : Nat} {words : List Keyword} {f schema dot table : Forest}
    (hf : SpellsWords words f) (hwords : words ∈ [[.IN], [.NOT, .IN]])
    (hschema : Spells [.identifier] schema) (hdot : Spells [.dot] dot)
    (htable : Spells [.identifier] table) :
    Phrase (.one .test) n
      (f ++ ([.node .schemaName schema] ++ (dot ++ [.node .tableName table])))
  | escape {n : Nat} {f g : Forest} (hf : SpellsWords [.ESCAPE] f)
    (h : Phrase (.operand (Level.equality.rank + 1)) n g) : Phrase (.one .escape) n (f ++ g)
  | arm {n : Nat} {f g t g' : Forest} (hf : SpellsWords [.WHEN] f) (h : Phrase .inner n g)
    (ht : SpellsWords [.THEN] t) (h' : Phrase .inner n g') :
    Phrase (.one .arm) n [.node .whenArm (f ++ (g ++ (t ++ g')))]
  | otherwise {n : Nat} {f g : Forest} (hf : SpellsWords [.ELSE] f) (h : Phrase .inner n g) :
    Phrase (.one .otherwise) n [.node .elseArm (f ++ g)]
  -- repetition
  | last {element : Element} {n : Nat} {f : Forest} (h : Phrase (.one element) n f) :
    Phrase (.many element) n f
  | more {element : Element} {n : Nat} {f g : Forest} (h : Phrase (.one element) n f)
    (hg : Phrase (.many element) n g) : Phrase (.many element) n (f ++ g)
  | absent {element : Element} {n : Nat} : Phrase (.optional element) n []
  | present {element : Element} {n : Nat} {f : Forest} (h : Phrase (.one element) n f) :
    Phrase (.optional element) n f

/-- An operand of a rank is one of every looser rank. -/
theorem Phrase.mono {rank rank' n : Nat} {f : Forest} (h : Phrase (.operand rank) n f)
    (hle : rank' ≤ rank) : Phrase (.operand rank') n f := by
  induction hle with
  | refl => exact h
  | step _ ih => exact ih h.loosen

end TolerantSql
