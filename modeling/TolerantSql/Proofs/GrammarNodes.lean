import TolerantSql.Grammar.Statement
import TolerantSql.Proofs.RuleInduction

/-!
# The nodes that the grammar makes

Nodes come in three sorts. The nodes of operators stand between the levels of an
expression and are made by the rules of the levels alone. Skipped tokens are
gathered in nodes by recovery and by no rule. All other nodes are those of
clauses, and the rules of clauses make nothing else: operators they reach through
nonterminals only. All of this can be read off the rules, so it is left to the
simplifier, rule by rule.
-/

namespace TolerantSql

namespace NodeKind

/-- Kinds of nodes that hold a clause: all but those of operators and of skipped
tokens. -/
def IsClause (kind : NodeKind) : Prop :=
  kind ∉ [or, and, not, equality, comparison, bitwise, additive, multiplicative, concatenation,
    collate, unary, skipped]

end NodeKind

namespace Rule

/-! ## Building rules -/

section Building

variable {K : NodeKind → Prop} {test : Lookahead → Bool} {r yes no : Rule} {rules : List Rule}

attribute [simp] Makes

@[simp] theorem makes_ite {c : Prop} [Decidable c] :
    (if c then yes else no).Makes K ↔ (c → yes.Makes K) ∧ (¬ c → no.Makes K) := by
  split <;> simp [*]

@[simp] theorem makes_all_nil : (all []).Makes K := trivial

@[simp] theorem makes_all_cons :
    (all (r :: rules)).Makes K ↔ r.Makes K ∧ (all rules).Makes K := Iff.rfl

@[simp] theorem makes_branch :
    (branch test yes no).Makes K
      ↔ ∀ v, (test v = true → yes.Makes K) ∧ (test v = false → no.Makes K) := by
  simp [branch]

@[simp] theorem makes_onlyIf :
    (onlyIf test r).Makes K ↔ ∀ v, test v = true → r.Makes K := by
  simp [onlyIf]

@[simp] theorem makes_eat (kind : TokenKind) : (eat kind).Makes K := by simp [eat]

@[simp] theorem makes_eatKeyword (word : Keyword) : (eatKeyword word).Makes K := by
  simp [eatKeyword]

@[simp] theorem makes_eatOneOf (words : List Keyword) : (eatOneOf words).Makes K := by
  simp [eatOneOf]

@[simp] theorem makes_expect (kind : TokenKind) (what : String) : (expect kind what).Makes K := by
  simp [expect]

@[simp] theorem makes_expectKeyword (word : Keyword) : (expectKeyword word).Makes K := by
  simp [expectKeyword]

@[simp] theorem makes_expectOneOf (words : List Keyword) (message : String) :
    (expectOneOf words message).Makes K := by
  simp [expectOneOf]

@[simp] theorem makes_nameToken (what : String) : (nameToken what).Makes K := by
  simp [nameToken]

@[simp] theorem makes_closeParen : closeParen.Makes K := by simp [closeParen]

@[simp] theorem makes_collationName : collationName.Makes K := by simp [collationName]

@[simp] theorem makes_expr : expr.Makes K := trivial

@[simp] theorem makes_expressionList : expressionList.Makes K := trivial

end Building

/-! ## Clauses -/

open NodeKind

@[simp] theorem makes_select : select.Makes IsClause := by
  simp [select, resultColumn, columnAlias, IsClause]

@[simp] theorem makes_subquery : subquery.Makes IsClause := by
  simp [subquery, IsClause]

@[simp] theorem makes_orderBy : orderBy.Makes IsClause := by
  simp [orderBy, orderingTerm, IsClause]

@[simp] theorem makes_signedNumber : signedNumber.Makes IsClause := by
  simp [signedNumber, IsClause]

@[simp] theorem makes_typeName : typeName.Makes IsClause := by
  simp [typeName, IsClause]

theorem makes_columnReference : columnReference.Makes IsClause := by
  simp [columnReference, columnPart, IsClause]

@[simp] theorem makes_filterClause : filterClause.Makes IsClause := by
  simp [filterClause, IsClause]

@[simp] theorem makes_frameBound : frameBound.Makes IsClause := by
  simp [frameBound, IsClause]

@[simp] theorem makes_frameSpec : frameSpec.Makes IsClause := by
  simp [frameSpec, frameExclude, IsClause]

@[simp] theorem makes_overClause : overClause.Makes IsClause := by
  simp [overClause, windowDefinition, IsClause]

theorem makes_functionCall : functionCall.Makes IsClause := by
  simp [functionCall, IsClause]

theorem makes_parenthesized : parenthesized.Makes IsClause := by
  simp [parenthesized, IsClause]

theorem makes_cast : cast.Makes IsClause := by
  simp [cast, IsClause]

theorem makes_existsTest : existsTest.Makes IsClause := by
  simp [existsTest, IsClause]

theorem makes_caseExpr : caseExpr.Makes IsClause := by
  simp [caseExpr, whenArm, elseArm, IsClause]

theorem makes_raise : raise.Makes IsClause := by
  simp [raise, IsClause]

theorem makes_missingExpression : missingExpression.Makes IsClause := by
  simp [missingExpression]

/-- **An expression without operators** makes no nodes but those of clauses. -/
@[simp] theorem makes_primary : primary.Makes IsClause := by
  simp [primary, makes_parenthesized, makes_caseExpr, makes_existsTest, makes_cast, makes_raise,
    makes_functionCall, makes_columnReference, makes_missingExpression]

@[simp] theorem makes_inTarget : inTarget.Makes IsClause := by
  simp [inTarget, qualifiedName, name, IsClause]

@[simp] theorem makes_foreignKeyClause : foreignKeyClause.Makes IsClause := by
  simp [foreignKeyClause, foreignKeyAction, deferrableClause, name, IsClause]

@[simp] theorem makes_columnConstraint : columnConstraint.Makes IsClause := by
  simp [columnConstraint, constraintBody, conflictClause, parenthesizedExpr, defaultValue,
    generatedColumn, IsClause]

theorem makes_columnDefinition : columnDefinition.Makes IsClause := by
  simp [columnDefinition, name, IsClause]

theorem makes_alterTable : alterTable.Makes IsClause := by
  simp [alterTable, alterAction, makes_columnDefinition, qualifiedName, name, IsClause]

theorem makes_explain : explain.Makes IsClause := by
  simp [explain]

/-- **The rules of statements make no nodes but those of clauses.** -/
theorem makes_ofStatementKeyword {kind : TokenKind} {r : Rule}
    (h : ofStatementKeyword? kind = some r) : r.Makes IsClause := by
  unfold ofStatementKeyword? at h
  split at h <;> cases h
  · exact makes_alterTable
  · exact makes_select
  · simp [analyze, qualifiedName, name, IsClause]
  · simp [attach, name, IsClause]
  · simp [begin, IsClause]

/-! ## Operators -/

theorem Makes.ne_skipped {r : Rule} (h : r.Makes IsClause) : r.Makes (· ≠ .skipped) :=
  h.mono fun kind hkind => by
    rintro rfl
    simp [IsClause] at hkind

theorem makes_unary : unary.Makes (· ≠ .skipped) := by
  simp [unary, makes_primary.ne_skipped]

theorem makes_binary {level : Level} {operand : Rule} (h : operand.Makes (· ≠ .skipped)) :
    (binary level operand).Makes (· ≠ .skipped) := by
  have hkind : level.nodeKind ≠ .skipped := by cases level <;> exact nofun
  simp [binary, h, hkind]

theorem makes_collate : collate.Makes (· ≠ .skipped) := by
  simp [collate, makes_unary]

theorem makes_comparison : comparison.Makes (· ≠ .skipped) :=
  makes_binary <| makes_binary <| makes_binary <| makes_binary <| makes_binary makes_collate

/-- **What holds of the parts of an operator of the equality level** holds of the
operator with what stands behind it. -/
theorem equalityLink_induct {P : Rule → Prop} (nil : P (all []))
    (cons : ∀ {r : Rule} {rules : List Rule}, P r → P (all rules) → P (all (r :: rules)))
    (onlyIf : ∀ {r : Rule} (test : Lookahead → Bool), P r → P (onlyIf test r)) (shift : P shift)
    (expectKeyword : ∀ word, P (expectKeyword word)) (inTarget : P inTarget)
    (comparison : P comparison) (v : Lookahead) : P ((equalityLink? v).getD done) := by
  have hoperator : P (if negatesOperator v then all [.shift, .shift] else .shift) := by
    split
    · exact cons shift (cons shift nil)
    · exact shift
  unfold equalityLink?
  dsimp only
  generalize (if negatesOperator v then all [.shift, .shift] else .shift) = shiftOperator
    at hoperator
  generalize (if negatesOperator v then v.next else v.current) = operator
  split_ifs
  · exact cons shift (cons comparison nil)
  · exact shift
  · exact hoperator
  · exact cons shift <| cons (onlyIf _ shift) <|
      cons (onlyIf _ (cons shift (cons (expectKeyword .FROM) nil))) <| cons comparison nil
  · exact cons hoperator <| cons comparison <| cons (expectKeyword .AND) <| cons comparison nil
  · exact cons hoperator <| cons inTarget nil
  · exact cons hoperator <| cons comparison <|
      cons (onlyIf _ (cons shift (cons comparison nil))) nil
  · exact nil

theorem makes_equality : equality.Makes (· ≠ .skipped) := by
  have hlink (v : Lookahead) : ((equalityLink? v).getD done).Makes (· ≠ .skipped) :=
    equalityLink_induct trivial And.intro (fun test h => by simp [h]) trivial makes_expectKeyword
      makes_inTarget.ne_skipped makes_comparison v
  simp [equality, makes_comparison, hlink]

theorem makes_negation : negation.Makes (· ≠ .skipped) := by
  simp [negation, makes_equality]

/-- **No rule gathers tokens as skipped**: only recovery does. -/
theorem makes_ofNonterminal (goal : Nonterminal) : (ofNonterminal goal).Makes (· ≠ .skipped) := by
  cases goal with
  | expression => exact makes_binary (makes_binary makes_negation)
  | negation => exact makes_negation
  | unary => exact makes_unary

end Rule

end TolerantSql
