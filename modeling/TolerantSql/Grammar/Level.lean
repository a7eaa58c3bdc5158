import TolerantSql.Token.Kind
import TolerantSql.Tree.Kind

/-!
# Levels of binding

An expression is made of operators that bind more or less tightly. The levels
are listed loosest first, and `Level.rank` numbers them in that order: the
operands of an operator stand on tighter levels than the operator itself.
-/

namespace TolerantSql

/-- **How tightly an operator binds**, loosest first. -/
inductive Level where
  | or | and | not | equality | comparison | bitwise | additive | multiplicative
  | concatenation | collate | unary
  deriving DecidableEq

namespace Level

/-- Position in the order of binding. -/
def rank : Level → Nat
  | or => 0
  | and => 1
  | not => 2
  | equality => 3
  | comparison => 4
  | bitwise => 5
  | additive => 6
  | multiplicative => 7
  | concatenation => 8
  | collate => 9
  | unary => 10

/-- The node that holds the operators of a level. -/
def nodeKind : Level → NodeKind
  | or => .or
  | and => .and
  | not => .not
  | equality => .equality
  | comparison => .comparison
  | bitwise => .bitwise
  | additive => .additive
  | multiplicative => .multiplicative
  | concatenation => .concatenation
  | collate => .collate
  | unary => .unary

end Level

/-- **The level of a binary operator that is a single token.** The operators of
the equality level that are keywords take several tokens and are no part of
this table. -/
def TokenKind.operatorLevel? : TokenKind → Option Level
  | .keyword .OR => some .or
  | .keyword .AND => some .and
  | .eq | .eqEq | .notEq | .ltGt => some .equality
  | .lt | .ltEq | .gt | .gtEq => some .comparison
  | .bitAnd | .bitOr | .leftShift | .rightShift => some .bitwise
  | .plus | .minus => some .additive
  | .star | .slash | .percent => some .multiplicative
  | .concat | .arrow | .doubleArrow => some .concatenation
  | _ => none

end TolerantSql
