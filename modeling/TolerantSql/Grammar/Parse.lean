import TolerantSql.Grammar.Expression

/-!
# Parsing with a rule

`Nonterminal.parse` ties the knot: the rule of a nonterminal is run with the
nonterminals meaning themselves. It ends because a nonterminal is entered again
only with fewer tokens to come or, when none has been taken in between, with a
tighter nonterminal; the grammar never asks for anything else, and a rule that
did would get nothing.
-/

namespace TolerantSql

namespace Nonterminal

/-- Order in which nonterminals may follow each other without taking a
token. -/
def rank : Nonterminal → Nat
  | negation => 0
  | unary => 1
  | expression => 2

/-- What is left to do for a nonterminal: the tokens to come and, second to
that, its rank. -/
def weight (goal : Nonterminal) (s : State) : Nat := 3 * s.remaining + goal.rank

/-- **Parses a nonterminal** at a nesting depth. -/
def parse (depth : Nat) (goal : Nonterminal) (s : State) : Outcome :=
  Rule.run
    (fun depth' goal' s' =>
      if _h : weight goal' s' < weight goal s then parse depth' goal' s' else s'.stay)
    depth (Rule.ofNonterminal goal) s
termination_by weight goal s

end Nonterminal

/-- **Parses with a rule** of the grammar, outside any expression. -/
def Rule.parse (rule : Rule) : Parse := rule.run Nonterminal.parse 0

end TolerantSql
