import TolerantSql.Grammar.Level
import TolerantSql.Grammar.TokenClass
import TolerantSql.Proofs.MaximalMunch

/-!
# Which tokens may stand side by side

Tokens are written with a space between two words, two dashes, or a slash and a
star, and without one elsewhere. That is not enough for any two tokens: `<` and `=`
would be read as one, a `$` parameter takes a parenthesis for its suffix, and a
point and a number run together. `TokenKind.staysApart` says of two kinds that they
are read as two.

Grammar rules do not decide by pairs, they decide by what comes next. The classes
below cut the table of pairs into pieces that a rule can check on one side at a
time: what anything may stand behind (`isPlain`), what may stand behind anything
(`isHarmless`), and what may come before and behind an operand.
-/

namespace TolerantSql

namespace TokenKind

/-- Whether two tokens written without a space between them would be read as
something else. Two operators are if the first goes on into the second; apart from
these, a number takes a point, a point takes a number, and a `$` parameter takes a
parenthesis. Words are not considered: a space keeps them apart. -/
def clashes (left right : TokenKind) : Bool :=
  (left.punctuation?.any fun p => right.punctuation?.any fun q => left.goesOn p.toList q.toList)
    || (left == dot && right == numeric) || (left == numeric && right == dot)
    || (left == dollarVariable && right == leftParen)

/-- **Whether two tokens can be told apart** when one is written behind the other,
with a space where `needsSpace` asks for one. -/
def staysApart (left right : TokenKind) : Bool := left.needsSpace right || !left.clashes right

/-- Operators that a following operator could make longer. -/
def canGrow : TokenKind → Bool
  | minus | arrow | eq | lt | gt | bitOr => true
  | _ => false

/-- Kinds of tokens that anything may stand behind. -/
def isPlain : TokenKind → Bool
  | dot | numeric | dollarVariable => false
  | kind => !kind.canGrow

/-- Kinds of tokens that may stand behind anything. -/
def isHarmless : TokenKind → Bool
  | eq | eqEq | lt | ltEq | ltGt | leftShift | gt | gtEq | rightShift | arrow | doubleArrow
  | bitOr | concat | dot | numeric | leftParen => false
  | _ => true

/-- Kinds of tokens that an operand may stand behind. -/
def opensOperand (kind : TokenKind) : Bool := kind != dot && kind != dollarVariable

/-- Kinds of tokens that may stand where an operand starts. -/
def startsOperand (kind : TokenKind) : Bool :=
  kind.isHarmless || kind == numeric || kind == leftParen

/-- Kinds of tokens that rules take into the tree. -/
def isTakeable (kind : TokenKind) : Bool := !kind.endsStatement && !kind.isError

/-- **Kinds of tokens that need no care**: rules take them, they may stand behind
anything, and anything may stand behind them. -/
def isCalm (kind : TokenKind) : Bool := kind.isTakeable && kind.isHarmless && kind.isPlain

theorem isCalm_iff {kind : TokenKind} : kind.isCalm = true ↔
    kind.isTakeable = true ∧ kind.isHarmless = true ∧ kind.isPlain = true := by
  simp only [isCalm, Bool.and_eq_true, and_assoc]

variable {left right : TokenKind}

/-! ## One side at a time -/

/-- Behind a plain token anything may stand. -/
theorem staysApart_of_isPlain (h : left.isPlain = true) (right : TokenKind) :
    left.staysApart right = true := by
  unfold staysApart clashes
  cases left <;> cases h <;> cases right <;> rfl

/-- A harmless token may stand behind anything. -/
theorem staysApart_of_isHarmless (h : right.isHarmless = true) (left : TokenKind) :
    left.staysApart right = true := by
  unfold staysApart clashes
  cases right <;> cases h <;> cases left <;> rfl

/-- **An operator may stand behind what cannot grow.** -/
theorem staysApart_of_operatorLevel {level : Level} (hleft : left.canGrow = false)
    (hright : right.operatorLevel? = some level) : left.staysApart right = true := by
  unfold staysApart clashes
  cases right <;> first
    | (cases hright; done)
    | (cases left <;> first | rfl | cases hleft)

/-- **An operand may start behind what opens one.** -/
theorem staysApart_of_opensOperand (hleft : left.opensOperand = true)
    (hright : right.startsOperand = true) : left.staysApart right = true := by
  cases hharmless : right.isHarmless with
  | true => exact staysApart_of_isHarmless hharmless left
  | false =>
    rw [startsOperand, hharmless, Bool.false_or, Bool.or_eq_true, beq_iff_eq, beq_iff_eq] at hright
    unfold staysApart clashes
    rcases hright with rfl | rfl <;> cases left <;> first | rfl | cases hleft

/-! ## How the classes lie -/

theorem canGrow_of_isPlain {kind : TokenKind} (h : kind.isPlain = true) : kind.canGrow = false := by
  cases kind <;> first | rfl | cases h

theorem opensOperand_of_isPlain {kind : TokenKind} (h : kind.isPlain = true) :
    kind.opensOperand = true := by
  cases kind <;> first | rfl | cases h

/-- Every operator that is a single token is taken, and an operand may follow. -/
theorem opensOperand_of_operatorLevel {kind : TokenKind} {level : Level}
    (h : kind.operatorLevel? = some level) :
    kind.isTakeable = true ∧ kind.opensOperand = true := by
  cases kind <;> first | exact ⟨rfl, rfl⟩ | cases h

/-- Every prefix operator is taken, may start an operand, and one may follow. -/
theorem opensOperand_of_isUnaryOperator {kind : TokenKind} (h : kind.isUnaryOperator = true) :
    kind.isTakeable = true ∧ kind.startsOperand = true ∧ kind.opensOperand = true := by
  cases kind <;> first | exact ⟨rfl, rfl, rfl⟩ | cases h

/-- A keyword needs no care. -/
theorem isCalm_of_isKeywordIn {kind : TokenKind} {words : List Keyword}
    (h : kind.isKeywordIn words = true) : kind.isCalm = true := by
  cases kind <;> first | rfl | cases h

/-- A name needs no care. -/
theorem isCalm_of_isName {kind : TokenKind} (h : kind.isName = true) : kind.isCalm = true := by
  rw [isName, Bool.or_eq_true, beq_iff_eq] at h
  rcases h with rfl | h
  · rfl
  · exact isCalm_of_isKeywordIn h

/-- **Every literal is an operand**: it may start one, and nothing makes it
longer. -/
theorem startsOperand_of_isLiteral {kind : TokenKind} (h : kind.isLiteral = true) :
    kind.isTakeable = true ∧ kind.startsOperand = true ∧ kind.canGrow = false := by
  cases kind <;> first | exact ⟨rfl, rfl, rfl⟩ | cases h

end TokenKind

end TolerantSql
