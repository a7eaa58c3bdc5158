import Mathlib.Tactic.SplitIfs
import TolerantSql.Grammar.Expression
import TolerantSql.Grammar.Statement
import TolerantSql.Proofs.TakenTokens

/-!
# Rules that keep to their statement

Rules see the three tokens that come next, whatever they are. Behind the token that
ends the statement stands the next one, and a rule that were decided by what it sees
there would parse a statement differently for the sake of another. So two lookaheads
that agree up to the end of the statement (`Lookahead.Agrees`) have to be one and the
same to each test of the grammar.

A test is not asked alone, but where its rule stands. What comes behind a parenthesis
is looked at only once the parenthesis has been seen, and there it is part of the
statement. `Rule.Confined` is therefore about a rule at what it sees, and passes on to
the parts of a rule what has been seen of them. It asks the same of reports that are
made as they stand: they are made before the end of the input only. Properties of steps
that rest on it pass to rules that keep to their statement (`ConfinedInvariant.rule`).
-/

namespace TolerantSql

theorem TokenKind.eq_of_endsStatement {kind : TokenKind} (h : kind.endsStatement = true) :
    kind = .semicolon ∨ kind = .eof := by
  cases kind <;> first | exact .inl rfl | exact .inr rfl | cases h

namespace Lookahead

/-- **Two lookaheads that are the same up to the end of the statement.** Behind the token
that ends it they may differ in any way. -/
structure Agrees (v v' : Lookahead) : Prop where
  current : v'.current = v.current
  word : v'.word = v.word
  next : v.current.endsStatement = false → v'.next = v.next
  afterNext : v.current.endsStatement = false → v.next.endsStatement = false →
    v'.afterNext = v.afterNext

/-- **What is decided here by tokens of the statement.** -/
def Settles {α : Type} (v : Lookahead) (f : Lookahead → α) : Prop :=
  ∀ v', v.Agrees v' → f v' = f v

variable {α : Type} {v : Lookahead}

/-- What depends on the current token alone. -/
theorem settles_of_current {f : Lookahead → α}
    (h : ∀ v next afterNext, f ⟨v.current, next, afterNext, v.word⟩ = f v) : v.Settles f := by
  rintro ⟨current, next, afterNext, word⟩ ⟨hcurrent, hword, -, -⟩
  obtain rfl : current = v.current := hcurrent
  obtain rfl : word = v.word := hword
  exact h v next afterNext

/-- What depends on two tokens, where the first does not end the statement. -/
theorem settles_of_next {f : Lookahead → α}
    (h : ∀ v afterNext, f ⟨v.current, v.next, afterNext, v.word⟩ = f v)
    (hend : v.current.endsStatement = false) : v.Settles f := by
  rintro ⟨current, next, afterNext, word⟩ ⟨hcurrent, hword, hnext, -⟩
  obtain rfl : current = v.current := hcurrent
  obtain rfl : word = v.word := hword
  obtain rfl : next = v.next := hnext hend
  exact h v afterNext

/-- What depends on two tokens, but not on the second where the first ends the
statement. -/
theorem settles_of_ends {f : Lookahead → α}
    (h : ∀ v afterNext, f ⟨v.current, v.next, afterNext, v.word⟩ = f v)
    (hsemicolon : ∀ next afterNext word,
      f ⟨.semicolon, next, afterNext, word⟩ = f ⟨.semicolon, .eof, .eof, word⟩)
    (heof : ∀ next afterNext word,
      f ⟨.eof, next, afterNext, word⟩ = f ⟨.eof, .eof, .eof, word⟩) : v.Settles f := by
  cases hend : v.current.endsStatement with
  | false => exact settles_of_next h hend
  | true =>
    obtain ⟨current, next, afterNext, word⟩ := v
    rintro ⟨current', next', afterNext', word'⟩ ⟨rfl, rfl, -, -⟩
    obtain rfl | rfl := TokenKind.eq_of_endsStatement hend
    · rw [hsemicolon next', hsemicolon next]
    · rw [heof next', heof next]

/-- What is computed from something that is settled. -/
theorem Settles.comp {β : Type} {f : Lookahead → α} (h : v.Settles f) (g : α → β) :
    v.Settles fun v' => g (f v') := fun v' hv => congrArg g (h v' hv)

/-! ### Tests -/

@[simp] theorem settles_const (a : α) : v.Settles fun _ => a := fun _ _ => rfl

@[simp] theorem settles_current (f : TokenKind → α) : v.Settles fun v' => f v'.current :=
  settles_of_current fun _ _ _ => rfl

@[simp] theorem settles_is (kind : TokenKind) : v.Settles (·.is kind) :=
  settles_current (· == kind)

@[simp] theorem settles_isKeyword (word : Keyword) : v.Settles (·.isKeyword word) :=
  settles_current (· == .keyword word)

@[simp] theorem settles_isKeywordIn (words : List Keyword) : v.Settles (·.isKeywordIn words) :=
  settles_current (·.isKeywordIn words)

@[simp] theorem settles_isName : v.Settles (·.isName) := settles_current TokenKind.isName

@[simp] theorem settles_isWord (word : String) : v.Settles (·.isWord word) :=
  settles_of_current fun _ _ _ => rfl

@[simp] theorem settles_isPair (first second : Keyword) : v.Settles (·.isPair first second) :=
  settles_of_ends (fun _ _ => rfl) (fun _ _ _ => rfl) fun _ _ _ => rfl

@[simp] theorem settles_not {f : Lookahead → Bool} (h : v.Settles f) :
    v.Settles fun v' => !f v' := h.comp not

@[simp] theorem settles_or {f g : Lookahead → Bool} (h : v.Settles f) (h' : v.Settles g) :
    v.Settles fun v' => f v' || g v' := fun v' hv => by simp only [h v' hv, h' v' hv]

@[simp] theorem settles_ite {test : Lookahead → Bool} {f g : Lookahead → α}
    (htest : v.Settles test) (hf : v.Settles f) (hg : v.Settles g) :
    v.Settles fun v' => if test v' then f v' else g v' := fun v' hv => by
  simp only [htest v' hv, hf v' hv, hg v' hv]

end Lookahead

namespace Rule

open Lookahead

/-! ## Confined rules -/

/-- **A rule that keeps to its statement** where it sees `v`: its tests are settled, and
what it reports as it stands is reported before the end of the input. -/
def Confined : Rule → Lookahead → Prop
  | seq first second, v => first.Confined v ∧ ∀ v', second.Confined v'
  | look choose, v => v.Settles choose ∧ (choose v).Confined v
  | recover announced _ _, v => announced = false → v.current ≠ .eof
  | node _ body, v => body.Confined v
  | chain _ operand continues link, v =>
    operand.Confined v ∧ (∀ v' : Lookahead, v'.Settles continues) ∧ ∀ v', link.Confined v'
  | loop continues body, _ => (∀ v' : Lookahead, v'.Settles continues) ∧ ∀ v', body.Confined v'
  | list _ item, _ => ∀ v', item.Confined v'
  | done, _ | shift, _ | missing .., _ | expecting _, _ | nested _, _ | resume _, _ => True

section Building

variable {v : Lookahead} {test : Lookahead → Bool} {r yes no : Rule} {rules : List Rule}

attribute [simp] Confined

@[simp] theorem confined_ite {c : Prop} [Decidable c] :
    (if c then yes else no).Confined v ↔ (c → yes.Confined v) ∧ (¬ c → no.Confined v) := by
  split <;> simp [*]

@[simp] theorem confined_all_nil : (all []).Confined v := trivial

@[simp] theorem confined_all_cons :
    (all (r :: rules)).Confined v ↔ r.Confined v ∧ ∀ v', (all rules).Confined v' := Iff.rfl

@[simp] theorem confined_branch (htest : v.Settles test) :
    (branch test yes no).Confined v
      ↔ (test v = true → yes.Confined v) ∧ (test v = false → no.Confined v) := by
  simp [branch, htest]

@[simp] theorem confined_onlyIf (htest : v.Settles test) :
    (onlyIf test r).Confined v ↔ (test v = true → r.Confined v) := by
  simp [onlyIf, htest]

@[simp] theorem confined_eat (kind : TokenKind) : (eat kind).Confined v := by simp [eat]

@[simp] theorem confined_eatKeyword (word : Keyword) : (eatKeyword word).Confined v := by
  simp [eatKeyword]

@[simp] theorem confined_eatOneOf (words : List Keyword) : (eatOneOf words).Confined v := by
  simp [eatOneOf]

@[simp] theorem confined_expect (kind : TokenKind) (what : String) :
    (expect kind what).Confined v := by
  simp [expect]

@[simp] theorem confined_expectKeyword (word : Keyword) : (expectKeyword word).Confined v := by
  simp [expectKeyword]

@[simp] theorem confined_expectOneOf (words : List Keyword) (message : String) :
    (expectOneOf words message).Confined v := by
  simp [expectOneOf]

@[simp] theorem confined_nameToken (what : String) : (nameToken what).Confined v := by
  simp [nameToken]

@[simp] theorem confined_name (kind : NodeKind) (what : String) : (name kind what).Confined v := by
  simp [name]

/-- A dot behind a name is looked at where the name is one. -/
@[simp] theorem confined_qualifiedName (kind : NodeKind) (what : String) :
    (qualifiedName kind what).Confined v := by
  have htest : v.Settles fun v' => v'.isName && v'.nextIs .dot :=
    settles_of_ends (fun _ _ => rfl) (fun _ _ _ => rfl) fun _ _ _ => rfl
  simp [qualifiedName, htest]

@[simp] theorem confined_closeParen : closeParen.Confined v := by
  have hend (h : v.current.endsStatement = false) : v.current ≠ .eof := by
    intro heof
    rw [heof] at h
    cases h
  simpa [closeParen] using fun _ => hend

@[simp] theorem confined_collationName : collationName.Confined v := by simp [collationName]

@[simp] theorem confined_expr : expr.Confined v := trivial

@[simp] theorem confined_expressionList : expressionList.Confined v := by simp [expressionList]

end Building

/-! ## Queries and type names -/

section Clauses

variable (v : Lookahead)

@[simp] theorem confined_columnAlias : columnAlias.Confined v := by
  simp [columnAlias]

/-- A star is looked for behind a name and a dot, which do not end the statement. -/
theorem settles_tableStar :
    v.Settles fun v' => v'.isName && v'.nextIs .dot && v'.afterNext == .star := by
  intro v' hv
  have hpair : v.Settles fun v' => v'.isName && v'.nextIs .dot :=
    settles_of_ends (fun _ _ => rfl) (fun _ _ _ => rfl) fun _ _ _ => rfl
  have htests := hpair v' hv
  dsimp only at htests ⊢
  rw [htests]
  cases hdot : v.isName && v.nextIs .dot with
  | false => rfl
  | true =>
    obtain ⟨hname, hnext⟩ := (Bool.and_eq_true _ _).mp hdot
    have hend : v.current.endsStatement = false := by
      refine Bool.eq_false_iff.2 fun hend => ?_
      obtain hkind | hkind := TokenKind.eq_of_endsStatement hend <;>
        rw [isName, hkind] at hname <;> cases hname
    have hend' : v.next.endsStatement = false := by
      rw [beq_iff_eq.1 hnext]
      rfl
    rw [hv.afterNext hend hend']

theorem confined_resultColumn : resultColumn.Confined v :=
  ⟨settles_ite (settles_is .star) (settles_const _)
    (settles_ite (settles_tableStar v) (settles_const _) (settles_const _)), by simp⟩

@[simp] theorem confined_select : select.Confined v := by
  simp [select, confined_resultColumn]

@[simp] theorem confined_subquery : subquery.Confined v := by
  simp [subquery]

@[simp] theorem confined_orderBy : orderBy.Confined v := by
  simp [orderBy, orderingTerm]

@[simp] theorem settles_startsConstraint : v.Settles startsConstraint :=
  settles_of_ends (fun _ _ => rfl) (fun _ _ _ => rfl) fun _ _ _ => rfl

@[simp] theorem settles_isTypeWord : v.Settles isTypeWord :=
  settles_of_ends (fun _ _ => rfl) (fun _ _ _ => rfl) fun _ _ _ => rfl

@[simp] theorem confined_signedNumber : signedNumber.Confined v := by
  simp [signedNumber]

@[simp] theorem confined_typeName : typeName.Confined v := by
  simp [typeName]

/-! ## Operands -/

theorem confined_columnReference : columnReference.Confined v := by
  simp [columnReference, columnPart]

@[simp] theorem confined_filterClause : filterClause.Confined v := by
  simp [filterClause]

@[simp] theorem confined_frameBound : frameBound.Confined v := by
  simp [frameBound]

@[simp] theorem confined_frameExclude : frameExclude.Confined v :=
  ⟨trivial, fun _ => ⟨⟨settles_of_current fun _ _ _ => rfl, by simp⟩, fun _ => trivial⟩⟩

@[simp] theorem confined_frameSpec : frameSpec.Confined v := by
  simp [frameSpec]

@[simp] theorem confined_windowDefinition : windowDefinition.Confined v := by
  simp [windowDefinition]

@[simp] theorem confined_overClause : overClause.Confined v := by
  simp [overClause]

theorem confined_functionCall : functionCall.Confined v := by
  simp [functionCall]

/-- Behind an opening parenthesis the statement goes on. -/
theorem confined_parenthesized {v : Lookahead} (h : v.is .leftParen = true) :
    parenthesized.Confined v := by
  have hend : v.current.endsStatement = false := by
    rw [beq_iff_eq.1 h]
    rfl
  have htest : v.Settles (·.nextIsKeyword .SELECT) := settles_of_next (fun _ _ => rfl) hend
  simp [parenthesized, htest]

theorem confined_cast : cast.Confined v := by
  simp [cast]

theorem confined_existsTest : existsTest.Confined v := by
  simp [existsTest]

theorem confined_caseExpr : caseExpr.Confined v := by
  simp [caseExpr, whenArm, elseArm]

theorem confined_raise : raise.Confined v := by
  simp [raise]

theorem confined_missingExpression : missingExpression.Confined v := by
  simp [missingExpression]

@[simp] theorem confined_primary : primary.Confined v := by
  refine ⟨settles_of_ends (fun _ _ => rfl) (fun _ _ _ => rfl) fun _ _ _ => rfl, ?_⟩
  simp +contextual [confined_parenthesized, confined_caseExpr, confined_existsTest, confined_cast,
    confined_raise, confined_functionCall, confined_columnReference, confined_missingExpression]

/-! ## Operators -/

theorem confined_unary : unary.Confined v := by
  simp [unary]

theorem confined_binary {level : Level} {operand : Rule} (h : ∀ v, operand.Confined v) :
    (binary level operand).Confined v := by
  have htest (v' : Lookahead) : v'.Settles (·.current.operatorLevel? == some level) :=
    settles_current fun kind => kind.operatorLevel? == some level
  simp [binary, h, htest]

theorem confined_collate : collate.Confined v := by
  simp [collate, confined_unary]

theorem confined_comparison (v : Lookahead) : comparison.Confined v :=
  confined_binary v <| fun v => confined_binary v <| fun v => confined_binary v <| fun v =>
    confined_binary v <| fun v => confined_binary v confined_collate

@[simp] theorem confined_inTarget : inTarget.Confined v :=
  ⟨settles_of_ends (fun _ _ => rfl) (fun _ _ _ => rfl) fun _ _ _ => rfl, by simp⟩

theorem settles_equalityLink : v.Settles equalityLink? :=
  settles_of_ends (fun _ _ => rfl) (fun _ _ _ => rfl) fun _ _ _ => rfl

/-- An operator of the equality level with what stands behind it. -/
theorem confined_equalityLink : ((equalityLink? v).getD done).Confined v := by
  have hoperator (v' : Lookahead) :
      (if negatesOperator v then all [shift, shift] else shift).Confined v' := by
    simp
  unfold equalityLink?
  dsimp only
  generalize (if negatesOperator v then all [shift, shift] else shift) = shiftOperator
    at hoperator
  split_ifs <;> simp [hoperator, confined_comparison]

theorem confined_equality : equality.Confined v :=
  ⟨confined_comparison v, fun v' => (settles_equalityLink v').comp Option.isSome,
    fun v' => ⟨(settles_equalityLink v').comp (Option.getD · done), confined_equalityLink v'⟩⟩

theorem confined_negation : negation.Confined v := by
  have htest : v.Settles fun v' => v'.isKeyword .NOT && !v'.nextIsKeyword .EXISTS :=
    settles_of_ends (fun _ _ => rfl) (fun _ _ _ => rfl) fun _ _ _ => rfl
  simp [negation, htest, confined_equality]

/-- **The rules of the nonterminals keep to their statement.** -/
theorem confined_ofNonterminal (goal : Nonterminal) : (ofNonterminal goal).Confined v := by
  cases goal with
  | expression =>
    exact confined_binary v fun v => confined_binary v confined_negation
  | negation => exact confined_negation v
  | unary => exact confined_unary v

/-! ## Statements -/

@[simp] theorem confined_conflictClause : conflictClause.Confined v := by
  simp [conflictClause]

@[simp] theorem confined_parenthesizedExpr : parenthesizedExpr.Confined v := by
  simp [parenthesizedExpr]

@[simp] theorem confined_generatedColumn : generatedColumn.Confined v := by
  simp [generatedColumn]

@[simp] theorem confined_defaultValue : defaultValue.Confined v :=
  ⟨settles_of_current fun _ _ _ => rfl, by simp⟩

@[simp] theorem confined_foreignKeyAction : foreignKeyAction.Confined v :=
  ⟨settles_of_current fun _ _ _ => rfl, by simp⟩

@[simp] theorem settles_startsForeignKeyAction : v.Settles startsForeignKeyAction :=
  settles_of_ends (fun _ _ => rfl) (fun _ _ _ => rfl) fun _ _ _ => rfl

@[simp] theorem confined_deferrableClause : deferrableClause.Confined v := by
  simp [deferrableClause]

@[simp] theorem confined_foreignKeyClause : foreignKeyClause.Confined v := by
  simp [foreignKeyClause]

@[simp] theorem confined_constraintBody : constraintBody.Confined v :=
  ⟨settles_of_ends (fun _ _ => rfl) (fun _ _ _ => rfl) fun _ _ _ => rfl, by simp⟩

@[simp] theorem confined_columnConstraint : columnConstraint.Confined v := by
  simp [columnConstraint]

@[simp] theorem confined_columnDefinition : columnDefinition.Confined v := by
  simp [columnDefinition]

/-- What is left over is reported as it stands, but the end of the input is not. -/
@[simp] theorem confined_alterAction : alterAction.Confined v := by
  refine ⟨settles_of_ends (fun _ _ => rfl) (fun _ _ _ => rfl) fun _ _ _ => rfl, ?_⟩
  have heof (h : ¬ v.is .eof = true) : v.current ≠ .eof := fun hkind => h (beq_iff_eq.2 hkind)
  simp +contextual [heof]

@[simp] theorem settles_lacksTableName : v.Settles lacksTableName :=
  settles_of_ends (fun _ _ => rfl) (fun _ _ _ => rfl) fun _ _ _ => rfl

theorem confined_explain : explain.Confined v := by
  simp [explain]

end Clauses

/-- **The rules of statements keep to their statement.** -/
theorem confined_ofStatementKeyword {kind : TokenKind} {r : Rule}
    (h : ofStatementKeyword? kind = some r) (v : Lookahead) : r.Confined v := by
  unfold ofStatementKeyword? at h
  split at h <;> cases h
  · simp [alterTable]
  · exact confined_select v
  · simp [analyze]
  · simp [attach]
  · simp [begin]

end Rule

/-! ## Invariants of the steps of confined rules -/

/-- **A property of steps** that passes to every rule that keeps to its statement. A
report that is made as it stands needs to have it before the end of the input only. -/
structure ConfinedInvariant (P : State → Outcome → Prop) : Prop extends Composes P where
  wrap : ∀ {s out}, P s out → ∀ kind, P s (out.wrap kind)
  shift : ∀ s : State, s.input.Lawful → P s s.shift
  missing : ∀ (s : State) announced what, s.input.Lawful → P s (s.missing announced what)
  expecting : ∀ (s : State) message, s.input.Lawful → P s (s.expecting message)
  recover : ∀ (s : State) announced message sync, s.input.Lawful →
    (announced = false → s.atEof = false) → P s (s.recover announced message sync)
  cutOff : ∀ s : State, s.input.Lawful → P s s.cutOff

namespace ConfinedInvariant

open StepInvariant (Holds)

variable {P : State → Outcome → Prop} {r : Rule} {s : State}

/-- **Every confined rule has the property**, if the nonterminals have it. -/
theorem run (h : ConfinedInvariant P) {goals : Nat → Nonterminal → Parse}
    (hgoals : ∀ depth goal, Holds P (goals depth goal)) (depth : Nat) (hs : s.input.Lawful)
    (hr : r.Confined s.lookahead) : P s (r.run goals depth s) := by
  induction r generalizing s with
  | done => exact h.stay s
  | seq first second ih₁ ih₂ =>
    have hfirst := ih₁ hs hr.1
    exact h.andThen hfirst (ih₂ (h.lawful hfirst hs) (hr.2 _))
  | look choose ih => exact ih s.lookahead hs hr.2
  | shift => exact h.shift s hs
  | missing announced what => exact h.missing s announced what hs
  | expecting message => exact h.expecting s message hs
  | recover announced message sync =>
    exact h.recover s announced message sync hs fun hannounced =>
      Bool.eq_false_iff.2 fun hend => hr hannounced (Token.kind_eq_eof hend)
  | node kind body ih => exact h.wrap (ih hs hr) kind
  | chain kind operand continues link ih₁ ih₂ =>
    obtain ⟨hoperand, -, hlink⟩ := hr
    have hfirst := ih₁ hs hoperand
    have hlinks := h.repeatWhile continues fun s hs => ih₂ hs (hlink s.lookahead)
    rw [Rule.run]
    dsimp only
    split
    · exact h.wrap (h.andThen hfirst (hlinks _ (h.lawful hfirst hs))) kind
    · exact hfirst
  | loop continues body ih =>
    exact h.repeatWhile continues (fun s hs => ih hs (hr.2 s.lookahead)) s hs
  | list shape item ih =>
    refine h.listRounds shape (h.listRound shape (fun s hs => ih hs (hr s.lookahead)) h.shift
      (fun announced what s => h.missing s announced what) ?_) .item s hs
    exact fun s message hs hend => h.recover s false message shape.resumes hs fun _ => hend
  | nested goal =>
    rw [Rule.run]
    split
    · exact hgoals _ _ s hs
    · exact h.cutOff s hs
  | resume goal => exact hgoals depth goal s hs

/-- Every nonterminal has the property. -/
theorem nonterminal (h : ConfinedInvariant P) (depth : Nat) (goal : Nonterminal) :
    Holds P (goal.parse depth) := by
  intro s hs
  induction depth, goal, s using Nonterminal.parse.induct with
  | case1 depth goal s ih =>
    rw [Nonterminal.parse]
    refine h.run (fun depth' goal' s' hs' => ?_) depth hs (Rule.confined_ofNonterminal _ goal)
    split
    · next hless => exact ih depth' goal' s' hless hs'
    · exact h.stay s'

/-- **Every confined rule has the property.** -/
theorem rule (h : ConfinedInvariant P) (hs : s.input.Lawful) (hr : r.Confined s.lookahead) :
    P s (r.parse s) :=
  h.run h.nonterminal 0 hs hr

end ConfinedInvariant

end TolerantSql
