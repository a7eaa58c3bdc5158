import TolerantSql.Grammar.Statement
import TolerantSql.Proofs.Unfolding

/-!
# No rule of the grammar goes round in circles

Each rule of the grammar secures what it takes to be carried out, in the order in
which the rules are defined. Two things are said of them. Most rules stand behind a
token, or begin with one that the test before them has recognised: such a rule
`Proceeds`, and a token has been taken behind it. An operand may be absent, and then
nothing is taken; it `Attempts` one, and takes a token if an expression can start
where it stands.

The operand is where the grammar could go wrong. Recovery of a missing one may skip
nothing at all and then enters `negation` again: that happens at a `NOT` behind a
prefix operator, and is a descent only because the nonterminal it comes from is of a
higher rank.
-/

namespace TolerantSql

/-! ## Tests that recognise tokens that can be taken -/

namespace Rule

variable {v : Lookahead}

theorem isTakeable_of_is {kind : TokenKind} (h : v.is kind = true)
    (hkind : kind.isTakeable = true) : v.current.isTakeable = true := by
  rw [beq_iff_eq.1 h]
  exact hkind

theorem isTakeable_of_isKeywordIn {words : List Keyword} (h : v.isKeywordIn words = true) :
    v.current.isTakeable = true :=
  (TokenKind.isCalm_iff.1 (TokenKind.isCalm_of_isKeywordIn h)).1

theorem isTakeable_of_isPair {first second : Keyword} (h : v.isPair first second = true) :
    v.current.isTakeable = true ∧ v.next.isTakeable = true := by
  rw [Lookahead.isPair, Bool.and_eq_true] at h
  refine ⟨isTakeable_of_isKeyword h.1, ?_⟩
  rw [beq_iff_eq.1 h.2]
  rfl

end Rule

theorem Lookahead.isKeywordIn_cons (word : Keyword) (words : List Keyword) (v : Lookahead) :
    v.isKeywordIn (word :: words) = (v.isKeyword word || v.isKeywordIn words) := by
  unfold isKeywordIn isKeyword TokenKind.isKeywordIn
  cases v.current with
  | keyword word' =>
    show (word' == word || words.contains word') = _
    rw [show (TokenKind.keyword word' == .keyword word) = (word' == word) by
      rw [Bool.eq_iff_iff, beq_iff_eq, beq_iff_eq, TokenKind.keyword.injEq]]
    rfl
  | _ => rfl

theorem Lookahead.isKeywordIn_nil (v : Lookahead) : v.isKeywordIn [] = false := by
  unfold isKeywordIn TokenKind.isKeywordIn
  cases v.current.keyword? <;> rfl

/-- No token both starts and follows an expression. -/
theorem TokenKind.startsExpression_of_followsExpression {kind : TokenKind}
    (h : kind.followsExpression = true) : kind.startsExpression = false := by
  cases kind with
  | keyword word => revert h; cases word <;> decide
  | _ => first | rfl | cases h

namespace Rule

/-! ## Rules behind a token -/

/-- **A rule that can be carried out** at what it sees, and behind which a token has
been taken. -/
def Proceeds (ready : Nonterminal → Prop) (taken : Bool) (v : Lookahead) (r : Rule) : Prop :=
  ∀ Q : Prospect, (∀ v', Q true v') → r.Secures ready Q taken v

section Rules

variable {ready : Nonterminal → Prop} {taken : Bool} {v : Lookahead}

namespace Proceeds

variable {r yes no : Rule} {rules : List Rule} {test : Lookahead → Bool}

theorem nil : (all []).Proceeds ready true v := fun _ hQ => hQ v

theorem cons (h : r.Proceeds ready taken v) (h' : ∀ v', (all rules).Proceeds ready true v') :
    (all (r :: rules)).Proceeds ready taken v := fun Q hQ => h _ fun v' => h' v' Q hQ

/-- The last of several rules. -/
theorem last (h : r.Proceeds ready taken v) : (all [r]).Proceeds ready taken v :=
  h.cons fun _ => nil

theorem node {kind : NodeKind} (h : r.Proceeds ready taken v) :
    (node kind r).Proceeds ready taken v := h

theorem ite {c : Prop} [Decidable c] (hyes : c → yes.Proceeds ready taken v)
    (hno : ¬ c → no.Proceeds ready taken v) : (if c then yes else no).Proceeds ready taken v := by
  split
  · next h => exact hyes h
  · next h => exact hno h

theorem look {choose : Lookahead → Rule} (h : (choose v).Proceeds ready taken v) :
    (look choose).Proceeds ready taken v := h

theorem branch (hyes : test v = true → yes.Proceeds ready taken v)
    (hno : ¬ test v = true → no.Proceeds ready taken v) :
    (branch test yes no).Proceeds ready taken v := .look (.ite hyes hno)

theorem onlyIf (h : test v = true → r.Proceeds ready true v) :
    (onlyIf test r).Proceeds ready true v := .branch h fun _ => nil

/-- A rule that may be left out, before others. -/
theorem onlyIf_cons (hyes : test v = true → (all (r :: rules)).Proceeds ready taken v)
    (hno : ¬ test v = true → (all rules).Proceeds ready taken v) :
    (all (Rule.onlyIf test r :: rules)).Proceeds ready taken v := by
  intro Q hQ
  show Secures ready (if test v then r else done) _ taken v
  split
  · next h => exact hyes h Q hQ
  · next h => exact hno h Q hQ

theorem shift (h : v.current.isTakeable = true) : shift.Proceeds ready taken v :=
  fun _ hQ => ⟨h, fun v' _ _ => hQ v'⟩

/-- A token, and rules that know what comes behind it. -/
theorem shift_cons (h : v.current.isTakeable = true)
    (h' : ∀ v', v'.current = v.next → v'.next = v.afterNext →
      (all rules).Proceeds ready true v') :
    (all (.shift :: rules)).Proceeds ready taken v :=
  fun Q hQ => ⟨h, fun v' hcurrent hnext => h' v' hcurrent hnext Q hQ⟩

theorem shift_twice (h : v.current.isTakeable = true) (hnext : v.next.isTakeable = true)
    (h' : ∀ v', (all rules).Proceeds ready true v') :
    (all (.shift :: .shift :: rules)).Proceeds ready taken v :=
  .shift_cons h fun _ hcurrent _ => .cons (.shift (hcurrent ▸ hnext)) h'

theorem missing {announced : Bool} {what : String} :
    (missing announced what).Proceeds ready true v := fun _ hQ => hQ v

theorem expecting {message : String} : (expecting message).Proceeds ready true v :=
  fun _ hQ => hQ v

theorem recover {announced : Bool} {message : String} {sync : StopSet} :
    (recover announced message sync).Proceeds ready true v := by
  intro Q hQ
  unfold Secures
  split
  · exact hQ v
  · exact fun v' _ => hQ v'

theorem loop {continues : Lookahead → Bool} {body : Rule}
    (h : ∀ v', continues v' = true → body.Proceeds ready false v') :
    (loop continues body).Proceeds ready true v := by
  refine fun Q hQ => ⟨?_, fun v' hcontinues => h v' hcontinues _ fun _ => rfl⟩
  split
  · exact hQ
  · exact hQ v

/-- Items may be entered whatever they begin with, since the list is behind a token. -/
theorem list {shape : State.ListShape} {item : Rule}
    (h : ∀ {ready' : Nonterminal → Prop} {v'}, (∀ goal, ready' goal) →
      shape.startsItem v'.current = true → item.Proceeds ready' false v') :
    (list shape item).Proceeds ready true v := fun _ hQ =>
  ⟨hQ, fun _ hstarts => h (fun _ => .inl rfl) hstarts _ fun _ => rfl⟩

theorem nested {goal : Nonterminal} : (nested goal).Proceeds ready true v :=
  fun _ hQ => ⟨.inl rfl, hQ⟩

theorem resume {goal : Nonterminal} : (resume goal).Proceeds ready true v :=
  fun _ hQ => ⟨.inl rfl, hQ⟩

end Proceeds

/-! ## Single tokens -/

theorem proceeds_eat {kind : TokenKind} (hkind : kind.isTakeable = true) :
    (eat kind).Proceeds ready true v := .onlyIf fun h => .shift (isTakeable_of_is h hkind)

theorem proceeds_eatKeyword (word : Keyword) : (eatKeyword word).Proceeds ready true v :=
  proceeds_eat rfl

theorem proceeds_eatOneOf (words : List Keyword) : (eatOneOf words).Proceeds ready true v :=
  .onlyIf fun h => .shift (isTakeable_of_isKeywordIn h)

theorem proceeds_expect {kind : TokenKind} (what : String) (hkind : kind.isTakeable = true) :
    (expect kind what).Proceeds ready true v :=
  .branch (fun h => .shift (isTakeable_of_is h hkind)) fun _ => .missing

theorem proceeds_expectKeyword (word : Keyword) : (expectKeyword word).Proceeds ready true v :=
  proceeds_expect word.spelling rfl

theorem proceeds_expectOneOf (words : List Keyword) (message : String) :
    (expectOneOf words message).Proceeds ready true v :=
  .branch (fun h => .shift (isTakeable_of_isKeywordIn h)) fun _ => .expecting

theorem proceeds_nameToken (what : String) : (nameToken what).Proceeds ready true v :=
  .branch (fun h => .shift (isTakeable_of_isName h)) fun _ => .missing

theorem proceeds_name (kind : NodeKind) (what : String) : (name kind what).Proceeds ready true v :=
  .branch (fun h => .node (.shift (isTakeable_of_isName h))) fun _ => .missing

theorem proceeds_name_of_isName (h : v.isName = true) (kind : NodeKind) (what : String) :
    (name kind what).Proceeds ready taken v :=
  .branch (fun h => .node (.shift (isTakeable_of_isName h))) (absurd h)

theorem proceeds_qualifiedName (kind : NodeKind) (what : String) :
    (qualifiedName kind what).Proceeds ready true v := by
  refine .cons (.onlyIf fun h => ?_) fun _ => .last (proceeds_name kind what)
  obtain ⟨hname, hdot⟩ := (Bool.and_eq_true _ _).mp h
  show Proceeds ready true v (all [.shift, .shift])
  refine .shift_twice (isTakeable_of_isName hname) ?_ fun _ => .nil
  rw [beq_iff_eq.1 hdot]
  rfl

theorem proceeds_closeParen : closeParen.Proceeds ready true v := by
  refine .look (.ite (fun h => .shift (isTakeable_of_is h rfl)) fun _ =>
    .ite (fun _ => .missing) fun _ => .cons .recover fun _ => .last ?_)
  exact .branch (fun h => .shift (isTakeable_of_is h rfl)) fun _ => .missing

/-! ## Queries and type names -/

theorem proceeds_expr : expr.Proceeds ready true v := .nested

/-- An expression takes the token that starts it. -/
theorem proceeds_expr_of_startsExpression (hready : ∀ goal, ready goal)
    (h : v.current.startsExpression = true) : expr.Proceeds ready taken v := by
  refine fun Q hQ => ⟨.inr (hready _), fun v' => ?_⟩
  rw [h, Bool.or_true]
  exact hQ v'

theorem proceeds_expressionList : expressionList.Proceeds ready true v :=
  .list proceeds_expr_of_startsExpression

theorem proceeds_columnAlias : columnAlias.Proceeds ready true v := by
  refine .look (.ite (fun h => ?_) fun _ => .onlyIf fun h => .node (.shift ?_))
  · refine .cons (.shift (isTakeable_of_isKeyword h)) fun _ => .last ?_
    refine .branch (fun h => .node (.shift ?_)) fun _ => .missing
    rcases (Bool.or_eq_true _ _).mp h with hstring | hname
    · exact isTakeable_of_is hstring rfl
    · exact isTakeable_of_isName hname
  · rcases (Bool.or_eq_true _ _).mp h with hidentifier | hstring
    · exact isTakeable_of_is hidentifier rfl
    · exact isTakeable_of_is hstring rfl

theorem proceeds_resultColumn (hready : ∀ goal, ready goal)
    (h : v.current.startsResultColumn = true) : resultColumn.Proceeds ready taken v := by
  refine .node (.look (.ite (fun hstar => ?_) fun hstar => .ite (fun htable => ?_) fun _ => ?_))
  · exact .shift (isTakeable_of_is hstar rfl)
  · -- a name, a point and a star
    rw [Bool.and_eq_true, Bool.and_eq_true] at htable
    obtain ⟨⟨hname, hdot⟩, hafter⟩ := htable
    show Proceeds ready taken v (all [.shift, .shift, .shift])
    refine .shift_cons (isTakeable_of_isName hname) fun v' hcurrent hnext => ?_
    refine .shift_twice ?_ ?_ fun _ => .nil
    · rw [hcurrent, beq_iff_eq.1 hdot]
      rfl
    · rw [hnext, beq_iff_eq.1 hafter]
      rfl
  · refine .cons (proceeds_expr_of_startsExpression hready ?_) fun _ => .last proceeds_columnAlias
    exact ((Bool.or_eq_true _ _).mp h).resolve_left hstar

theorem proceeds_select (h : v.isKeyword .SELECT = true) : select.Proceeds ready taken v :=
  .node <| .cons (.shift (isTakeable_of_isKeyword h)) fun _ => .cons (proceeds_eatOneOf _)
    fun _ => .last (.list proceeds_resultColumn)

theorem proceeds_subquery : subquery.Proceeds ready true v :=
  .node <| .cons (proceeds_expect "(" rfl) fun _ =>
    .cons (.branch proceeds_select fun _ => .missing) fun _ => .last proceeds_closeParen

/-- A query in parentheses, the first of which is there. -/
theorem proceeds_subquery_of_leftParen (h : v.is .leftParen = true) :
    subquery.Proceeds ready taken v :=
  .node <| .cons (.branch (fun h => .shift (isTakeable_of_is h rfl)) (absurd h)) fun _ =>
    .cons (.branch proceeds_select fun _ => .missing) fun _ => .last proceeds_closeParen

/-! ### The order of rows -/

theorem proceeds_orderingTerm (hready : ∀ goal, ready goal)
    (h : v.current.startsExpression = true) : orderingTerm.Proceeds ready taken v := by
  refine .node (.cons (proceeds_expr_of_startsExpression hready h) fun _ =>
    .cons (proceeds_eatOneOf _) fun _ => .last (.onlyIf fun hnulls => ?_))
  exact .cons (.shift (isTakeable_of_isKeyword hnulls)) fun _ => .last (proceeds_expectOneOf _ _)

theorem proceeds_orderBy (h : v.isKeyword .ORDER = true) : orderBy.Proceeds ready taken v :=
  .node <| .cons (.shift (isTakeable_of_isKeyword h)) fun _ => .cons (proceeds_expectKeyword _)
    fun _ => .last (.list proceeds_orderingTerm)

/-! ### Type names -/

theorem proceeds_signedNumber : signedNumber.Proceeds ready true v := by
  refine .node (.cons (.onlyIf fun h => .shift ?_) fun _ => .last (proceeds_expect "number" rfl))
  rcases (Bool.or_eq_true _ _).mp h with h | h
  · exact isTakeable_of_is h rfl
  · exact isTakeable_of_is h rfl

theorem proceeds_typeName : typeName.Proceeds ready true v := by
  refine .branch (fun _ => .node (.cons (.loop fun v' h => .shift ?_) fun _ =>
    .last (.onlyIf fun h => ?_))) fun _ => .missing
  · exact isTakeable_of_isName ((Bool.and_eq_true _ _).mp h).1
  · refine .cons (.shift (isTakeable_of_is h rfl)) fun _ => .cons proceeds_signedNumber fun _ =>
      .cons (.onlyIf fun h => ?_) fun _ => .last proceeds_closeParen
    exact .cons (.shift (isTakeable_of_is h rfl)) fun _ => .last proceeds_signedNumber

theorem proceeds_collationName : collationName.Proceeds ready true v :=
  .branch (fun h => .shift (isTakeable_of_is h rfl)) fun _ => proceeds_nameToken _

/-! ## Operands -/

theorem proceeds_columnPart {behind : Rule} (h : ∀ v', behind.Proceeds ready true v') :
    (columnPart behind).Proceeds ready true v := by
  refine .onlyIf fun hdot => .cons (.shift (isTakeable_of_is hdot rfl)) fun _ => .last ?_
  exact .branch (fun hname => .cons (.shift (isTakeable_of_isName hname)) fun v' => .last (h v'))
    fun _ => .missing

theorem proceeds_columnReference (h : v.isName = true) : columnReference.Proceeds ready taken v :=
  .node <| .cons (.shift (isTakeable_of_isName h)) fun _ =>
    .last (proceeds_columnPart fun _ => proceeds_columnPart fun _ => .nil)

theorem proceeds_filterClause (h : v.isKeyword .FILTER = true) :
    filterClause.Proceeds ready taken v :=
  .node <| .cons (.shift (isTakeable_of_isKeyword h)) fun _ => .cons (proceeds_expect "(" rfl)
    fun _ => .cons (proceeds_expectKeyword _) fun _ => .cons proceeds_expr fun _ =>
    .last proceeds_closeParen

theorem proceeds_frameBound : frameBound.Proceeds ready true v := by
  refine .node (.branch (fun h => ?_) fun _ => ?_)
  · exact .shift_twice (isTakeable_of_isPair h).1 (isTakeable_of_isPair h).2 fun _ => .nil
  · refine .cons (.branch (fun h => ?_) fun _ => .resume) fun _ => .last (proceeds_expectOneOf _ _)
    exact .shift (isTakeable_of_isKeyword h)

theorem proceeds_frameExclude (h : v.isKeyword .EXCLUDE = true) :
    frameExclude.Proceeds ready taken v := by
  refine .node (.cons (.shift (isTakeable_of_isKeyword h)) fun _ => .last (.look ?_))
  refine .ite (fun h => ?_) fun _ => .ite (fun h => ?_) fun _ => .ite (fun h => ?_) fun _ =>
    .expecting
  · exact .cons (.shift (isTakeable_of_isKeyword h)) fun _ => .last (proceeds_expectKeyword _)
  · exact .cons (.shift (isTakeable_of_isKeyword h)) fun _ => .last (proceeds_expectKeyword _)
  · exact .shift (isTakeable_of_isKeywordIn h)

theorem proceeds_frameSpec (h : v.isKeywordIn [.RANGE, .ROWS, .GROUPS] = true) :
    frameSpec.Proceeds ready taken v := by
  refine .node (.cons (.shift (isTakeable_of_isKeywordIn h)) fun _ =>
    .cons (.branch (fun h => ?_) fun _ => proceeds_frameBound) fun _ =>
    .last (.onlyIf proceeds_frameExclude))
  exact .cons (.shift (isTakeable_of_isKeyword h)) fun _ => .cons proceeds_frameBound fun _ =>
    .cons (proceeds_expectKeyword _) fun _ => .last proceeds_frameBound

theorem proceeds_windowDefinition : windowDefinition.Proceeds ready true v := by
  refine .cons (proceeds_eat rfl) fun _ => .cons (.onlyIf fun h => .node ?_) fun _ =>
    .cons (.onlyIf proceeds_orderBy) fun _ => .last (.onlyIf proceeds_frameSpec)
  exact .cons (.shift (isTakeable_of_isKeyword h)) fun _ => .cons (proceeds_expectKeyword _)
    fun _ => .last proceeds_expressionList

theorem proceeds_overClause (h : v.isKeyword .OVER = true) : overClause.Proceeds ready taken v := by
  refine .node (.cons (.shift (isTakeable_of_isKeyword h)) fun _ => .last (.look ?_))
  refine .ite (fun h => ?_) fun _ => .ite (fun h => .shift (isTakeable_of_isName h)) fun _ =>
    .expecting
  exact .cons (.shift (isTakeable_of_is h rfl)) fun _ => .cons proceeds_windowDefinition fun _ =>
    .last proceeds_closeParen

/-- A name and the parenthesis behind it. -/
theorem proceeds_call {rules : List Rule} (h : v.current.isTakeable = true)
    (hcall : v.nextIs .leftParen = true) (h' : ∀ v', (all rules).Proceeds ready true v') :
    (all (.shift :: .shift :: rules)).Proceeds ready taken v := by
  refine .shift_twice h ?_ h'
  rw [beq_iff_eq.1 hcall]
  rfl

theorem proceeds_functionCall (h : v.isName = true) (hcall : v.nextIs .leftParen = true) :
    functionCall.Proceeds ready taken v := by
  refine .node (proceeds_call (isTakeable_of_isName h) hcall fun _ => .cons (.look ?_) fun _ =>
    .cons proceeds_closeParen fun _ => .cons (.onlyIf proceeds_filterClause) fun _ =>
    .last (.onlyIf proceeds_overClause))
  refine .ite (fun h => .shift (isTakeable_of_is h rfl)) fun _ => .ite (fun _ => .nil) fun _ => ?_
  exact .cons (proceeds_eatKeyword _) fun _ => .cons proceeds_expressionList fun _ =>
    .last (.onlyIf proceeds_orderBy)

theorem proceeds_parenthesized (h : v.is .leftParen = true) :
    parenthesized.Proceeds ready taken v :=
  .branch (fun _ => proceeds_subquery_of_leftParen h) fun _ => .node <|
    .cons (.shift (isTakeable_of_is h rfl)) fun _ => .cons proceeds_expressionList fun _ =>
    .last proceeds_closeParen

theorem proceeds_cast (h : v.isKeyword .CAST = true) (hcall : v.nextIs .leftParen = true) :
    cast.Proceeds ready taken v :=
  .node <| proceeds_call (isTakeable_of_isKeyword h) hcall fun _ => .cons proceeds_expr fun _ =>
    .cons (proceeds_expectKeyword _) fun _ => .cons proceeds_typeName fun _ =>
    .last proceeds_closeParen

/-- The `NOT` before a word, if it is there, and the word itself. -/
theorem proceeds_notThen (word : Keyword) {rules : List Rule} (hne : word ≠ .NOT)
    (h : v.isKeyword word = true ∨ v.isPair .NOT word = true)
    (h' : ∀ v', (all rules).Proceeds ready true v') :
    (all (eatKeyword .NOT :: .shift :: rules)).Proceeds ready taken v := by
  refine .onlyIf_cons (fun hnot => ?_) fun hnot => ?_
  · have hpair : v.isPair .NOT word = true := by
      refine h.resolve_left fun hword => hne ?_
      exact TokenKind.keyword.inj ((beq_iff_eq.1 hword).symm.trans (beq_iff_eq.1 hnot))
    exact .shift_twice (isTakeable_of_isPair hpair).1 (isTakeable_of_isPair hpair).2 h'
  · have hword := h.resolve_right fun hpair => hnot ((Bool.and_eq_true _ _).mp hpair).1
    exact .cons (.shift (isTakeable_of_isKeyword hword)) h'

theorem proceeds_existsTest (h : (v.isKeyword .EXISTS || v.isPair .NOT .EXISTS) = true) :
    existsTest.Proceeds ready taken v :=
  .node <| proceeds_notThen .EXISTS (by decide) ((Bool.or_eq_true _ _).mp h) fun _ =>
    .last proceeds_subquery

theorem proceeds_whenArm (h : v.isKeyword .WHEN = true) : whenArm.Proceeds ready taken v :=
  .node <| .cons (.shift (isTakeable_of_isKeyword h)) fun _ => .cons proceeds_expr fun _ =>
    .cons (proceeds_expectKeyword _) fun _ => .last proceeds_expr

theorem proceeds_elseArm (h : v.isKeyword .ELSE = true) : elseArm.Proceeds ready taken v :=
  .node <| .cons (.shift (isTakeable_of_isKeyword h)) fun _ => .last proceeds_expr

theorem proceeds_caseExpr (h : v.isKeyword .CASE = true) : caseExpr.Proceeds ready taken v :=
  .node <| .cons (.shift (isTakeable_of_isKeyword h)) fun _ =>
    .cons (.onlyIf fun _ => proceeds_expr) fun _ => .cons (.onlyIf fun _ => .missing) fun _ =>
    .cons (.loop fun _ => proceeds_whenArm) fun _ => .cons (.onlyIf proceeds_elseArm) fun _ =>
    .last (proceeds_expectKeyword _)

theorem proceeds_raise (h : v.isKeyword .RAISE = true) (hcall : v.nextIs .leftParen = true) :
    raise.Proceeds ready taken v := by
  refine .node (proceeds_call (isTakeable_of_isKeyword h) hcall fun _ => .cons (.look ?_) fun _ =>
    .last proceeds_closeParen)
  refine .ite (fun h => .shift (isTakeable_of_isKeyword h)) fun _ => .ite (fun h => ?_) fun _ =>
    .expecting
  exact .cons (.shift (isTakeable_of_isKeywordIn h)) fun _ =>
    .cons (proceeds_expect "comma" rfl) fun _ => .last proceeds_expr

/-! ## Operands that may be absent -/

/-- **A rule that can be carried out and takes an operand if there is one**: a token has
been taken behind it if one had been before, or if an expression can start here. -/
def Attempts (ready : Nonterminal → Prop) (taken : Bool) (v : Lookahead) (r : Rule) : Prop :=
  ∀ Q : Prospect,
    (∀ taken' v', (taken = true ∨ v.current.startsExpression = true → taken' = true) →
      Q taken' v') →
    r.Secures ready Q taken v

namespace Attempts

variable {r : Rule}

theorem of_proceeds (h : r.Proceeds ready taken v) : r.Attempts ready taken v :=
  fun Q hQ => h Q fun v' => hQ true v' fun _ => rfl

/-- Behind a token, nothing is left open. -/
theorem proceeds (h : r.Attempts ready true v) : r.Proceeds ready true v := by
  refine fun Q hQ => h Q fun taken' v' htaken => ?_
  rw [htaken (.inl rfl)]
  exact hQ v'

theorem ite {c : Prop} [Decidable c] {yes no : Rule} (hyes : c → yes.Attempts ready taken v)
    (hno : ¬ c → no.Attempts ready taken v) : (if c then yes else no).Attempts ready taken v := by
  split
  · next h => exact hyes h
  · next h => exact hno h

/-- Links that begin with a token leave an operand what it is. -/
theorem chain {kind : NodeKind} {operand link : Rule} {continues : Lookahead → Bool}
    (h : operand.Attempts ready taken v)
    (h' : ∀ v', continues v' = true → link.Proceeds ready false v') :
    (chain kind operand continues link).Attempts ready taken v := by
  intro Q hQ
  refine ⟨h _ fun taken' v' htaken => ?_, fun v' hcontinues => h' v' hcontinues _ fun _ => rfl⟩
  split
  · exact fun v'' => hQ true v'' fun _ => rfl
  · exact hQ taken' v' htaken

end Attempts

/-- **Recovery of a missing operand.** Where an expression can start nothing is skipped,
and `negation` has to be ready. -/
theorem attempts_missingExpression
    (h : v.current.startsExpression = true → taken = true ∨ ready .negation) :
    missingExpression.Attempts ready taken v := by
  intro Q hQ
  -- what is done behind the tokens that are skipped
  have hresume {taken' : Bool} {v' : Lookahead}
      (hready : v'.current.startsExpression = true → taken' = true ∨ ready .negation)
      (hQ' : ∀ taken'' v'', (taken' = true ∨ v'.current.startsExpression = true → taken'' = true) →
        Q taken'' v'') :
      (all [onlyIf (·.current.startsExpression) (resume .negation)]).Secures ready Q taken' v' := by
    show Secures ready (if v'.current.startsExpression then resume .negation else done) Q taken' v'
    split
    · next hstarts =>
      exact ⟨hready hstarts, fun v'' => hQ' _ v'' ((Bool.or_eq_true _ _).mpr ·)⟩
    · next hstarts => exact hQ' _ _ (·.resolve_right hstarts)
  show Secures ready (if v.current.followsExpression then _ else _) Q taken v
  split
  · next hfollows =>
    refine hQ taken v (·.resolve_right fun hstarts => ?_)
    rw [TokenKind.startsExpression_of_followsExpression hfollows] at hstarts
    cases hstarts
  · show if _ then _ else _
    split
    · exact hresume h hQ
    · exact fun v' _ => hresume (fun _ => .inl rfl) fun taken'' v'' htaken =>
        hQ taken'' v'' fun _ => htaken (.inl rfl)

/-- **What an operand needs to be attempted.** Only at a `NOT` that is no part of
`NOT EXISTS` can recovery find that an expression starts right here. -/
def MayRecover (ready : Nonterminal → Prop) (taken : Bool) (v : Lookahead) : Prop :=
  (taken = true ∨ ready .negation) ∨ v.isKeyword .NOT = false ∨ v.nextIsKeyword .EXISTS = true

theorem attempts_primary (hunary : v.current.isUnaryOperator = false)
    (h : MayRecover ready taken v) : primary.Attempts ready taken v := by
  show Attempts ready taken v (ite ..)
  refine .ite (fun hparen => .of_proceeds (proceeds_parenthesized hparen)) fun hparen =>
    .ite (fun hcase => .of_proceeds (proceeds_caseExpr hcase)) fun hcase =>
    .ite (fun hexists => .of_proceeds (proceeds_existsTest hexists)) fun hexists =>
    .ite (fun hcast => ?_) fun _ => .ite (fun hraise => ?_) fun _ =>
    .ite (fun hname => ?_) fun hname => .ite (fun hliteral => ?_) fun hliteral => ?_
  · obtain ⟨hcast, hcall⟩ := (Bool.and_eq_true _ _).mp hcast
    exact .of_proceeds (proceeds_cast hcast hcall)
  · obtain ⟨hraise, hcall⟩ := (Bool.and_eq_true _ _).mp hraise
    exact .of_proceeds (proceeds_raise hraise hcall)
  · obtain ⟨hname, -⟩ := (Bool.and_eq_true _ _).mp hname
    exact .of_proceeds (.ite (proceeds_functionCall hname) fun _ => proceeds_columnReference hname)
  · exact .of_proceeds (.shift (TokenKind.startsOperand_of_isLiteral hliteral).1)
  · refine attempts_missingExpression fun hstarts => h.resolve_right fun hnot => ?_
    rw [Bool.not_eq_true] at hparen hcase hexists hname hliteral
    rw [startsExpression_eq_false hparen hcase hexists hname hliteral hunary hnot] at hstarts
    cases hstarts

theorem attempts_unary (h : MayRecover ready taken v) : unary.Attempts ready taken v := by
  show Attempts ready taken v (ite ..)
  refine .ite (fun hunary => .of_proceeds (.node (.cons (.shift ?_) fun _ => .last .nested)))
    fun hunary => attempts_primary (Bool.eq_false_of_not_eq_true hunary) h
  exact (TokenKind.opensOperand_of_isUnaryOperator hunary).1

/-! ## Operators -/

theorem attempts_collate (h : MayRecover ready taken v) : collate.Attempts ready taken v :=
  (attempts_unary h).chain fun _ hcollate => .cons (.shift (isTakeable_of_isKeyword hcollate))
    fun _ => .last proceeds_collationName

/-- The operands behind an operator are attempted behind a token. -/
theorem attempts_binary (level : Level) {operand : Rule} (h : operand.Attempts ready taken v)
    (hbehind : ∀ v', operand.Attempts ready true v') :
    (binary level operand).Attempts ready taken v := by
  refine h.chain fun v' hlevel => .cons (.shift ?_) fun v'' => .last (hbehind v'').proceeds
  exact (TokenKind.opensOperand_of_operatorLevel (beq_iff_eq.1 hlevel)).1

theorem attempts_comparison (h : MayRecover ready taken v) : comparison.Attempts ready taken v := by
  have hlevel {level : Level} {operand : Rule}
      (hoperand : ∀ {taken v}, MayRecover ready taken v → operand.Attempts ready taken v)
      {taken : Bool} {v : Lookahead} (h : MayRecover ready taken v) :
      (binary level operand).Attempts ready taken v :=
    attempts_binary level (hoperand h) fun _ => hoperand (.inl (.inl rfl))
  exact hlevel (hlevel (hlevel (hlevel (hlevel attempts_collate)))) h

theorem proceeds_comparison : comparison.Proceeds ready true v :=
  (attempts_comparison (.inl (.inl rfl))).proceeds

theorem proceeds_inTarget : inTarget.Proceeds ready true v := by
  refine .look (.ite (fun hparen => .ite (fun _ => proceeds_subquery) fun _ => .node ?_) fun _ =>
    .ite (fun _ => proceeds_qualifiedName _ _) fun _ => .expecting)
  exact .cons (.shift (isTakeable_of_is hparen rfl)) fun _ =>
    .cons (.onlyIf fun _ => proceeds_expressionList) fun _ => .last proceeds_closeParen

/-- Every operator of the equality level takes a token. -/
theorem proceeds_equalityLink (h : (equalityLink? v).isSome = true) :
    ((equalityLink? v).getD done).Proceeds ready taken v := by
  have hshift : (if negatesOperator v then v.next else v.current).isTakeable = true →
      v.current.isTakeable = true
        ∧ (if negatesOperator v then all [.shift, .shift] else .shift).Proceeds ready taken v := by
    cases hnegated : negatesOperator v with
    | true =>
      have hnot := isTakeable_of_isKeyword ((Bool.and_eq_true _ _).mp hnegated).1
      exact fun hnext => ⟨hnot, .shift_twice hnot hnext fun _ => .nil⟩
    | false => exact fun hcurrent => ⟨hcurrent, .shift hcurrent⟩
  have hkeyword {operator : TokenKind} {word : Keyword} (h : (operator == .keyword word) = true) :
      operator.isTakeable = true := by
    rw [beq_iff_eq.1 h]
    rfl
  unfold equalityLink? at h ⊢
  dsimp only at h ⊢
  -- which of the two tokens the operator is does not matter from here on
  generalize (if negatesOperator v then all [.shift, .shift] else .shift) = shiftOperator
    at h hshift ⊢
  generalize (if negatesOperator v then v.next else v.current) = operator at h hshift ⊢
  split_ifs at h ⊢ with heq hnull hnotNull his hbetween hin hpattern
  · have hoperator := (TokenKind.opensOperand_of_operatorLevel (beq_iff_eq.1 heq)).1
    exact .cons (.shift (hshift hoperator).1) fun _ => .last proceeds_comparison
  · have hoperator := (TokenKind.isCalm_iff.1 (TokenKind.isCalm_of_isKeywordIn hnull)).1
    exact .shift (hshift hoperator).1
  · exact (hshift (hkeyword ((Bool.and_eq_true _ _).mp hnotNull).1)).2
  · refine .cons (.shift (hshift (hkeyword his)).1) fun _ => .cons (proceeds_eatKeyword _) fun _ =>
      .cons (.onlyIf fun hdistinct => ?_) fun _ => .last proceeds_comparison
    exact .cons (.shift (isTakeable_of_isKeyword hdistinct)) fun _ =>
      .last (proceeds_expectKeyword _)
  · exact .cons (hshift (hkeyword hbetween)).2 fun _ => .cons proceeds_comparison fun _ =>
      .cons (proceeds_expectKeyword _) fun _ => .last proceeds_comparison
  · exact .cons (hshift (hkeyword hin)).2 fun _ => .last proceeds_inTarget
  · have hoperator := (TokenKind.isCalm_iff.1 (TokenKind.isCalm_of_isKeywordIn hpattern)).1
    refine .cons (hshift hoperator).2 fun _ => .cons proceeds_comparison fun _ =>
      .last (.onlyIf fun hescape => ?_)
    exact .cons (.shift (isTakeable_of_isKeyword hescape)) fun _ => .last proceeds_comparison
  · cases h

theorem attempts_negation : negation.Attempts ready taken v := by
  show Attempts ready taken v (ite ..)
  refine .ite (fun hnot => .of_proceeds (.node (.cons (.shift ?_) fun _ => .last .nested)))
    fun hnot => (attempts_comparison (.inr ?_)).chain fun _ h => .look (proceeds_equalityLink h)
  · exact isTakeable_of_isKeyword ((Bool.and_eq_true _ _).mp hnot).1
  · rwa [Bool.not_eq_true, Bool.and_eq_false_iff, Bool.not_eq_false'] at hnot

theorem attempts_disjunction : disjunction.Attempts ready taken v :=
  have hconjunction {taken : Bool} {v : Lookahead} : conjunction.Attempts ready taken v :=
    attempts_binary .and attempts_negation fun _ => attempts_negation
  attempts_binary .or hconjunction fun _ => hconjunction

/-- **The rules of the nonterminals take a token where an expression can start**, and
enter nothing before that but nonterminals of a lower rank. -/
theorem attempts_ofNonterminal (goal : Nonterminal) (v : Lookahead) :
    (ofNonterminal goal).Attempts (·.rank < goal.rank) false v := by
  cases goal with
  | expression => exact attempts_disjunction
  | negation => exact attempts_negation
  | unary => exact attempts_unary (.inl (.inr (by decide)))

/-! ## Column definitions -/

theorem proceeds_conflictClause : conflictClause.Proceeds ready true v :=
  .onlyIf fun h => .node <| .shift_twice (isTakeable_of_isPair h).1 (isTakeable_of_isPair h).2
    fun _ => .last (proceeds_expectOneOf _ _)

theorem proceeds_parenthesizedExpr : parenthesizedExpr.Proceeds ready true v :=
  .cons (proceeds_expect "(" rfl) fun _ => .cons proceeds_expr fun _ => .last proceeds_closeParen

theorem proceeds_generatedColumn (h : v.isKeywordIn [.GENERATED, .AS] = true) :
    generatedColumn.Proceeds ready taken v := by
  have hbehind (v : Lookahead) : (all [
      parenthesizedExpr,
      onlyIf (fun v => v.isKeyword .VIRTUAL || v.isWord "STORED") .shift]).Proceeds
        ready true v := by
    refine .cons proceeds_parenthesizedExpr fun _ => .last (.onlyIf fun h => .shift ?_)
    rcases (Bool.or_eq_true _ _).mp h with hvirtual | hstored
    · exact isTakeable_of_isKeyword hvirtual
    · exact isTakeable_of_is ((Bool.and_eq_true _ _).mp hstored).1 rfl
  refine .onlyIf_cons (fun hgenerated => ?_) fun hgenerated => ?_
  · refine .cons (.cons (.shift (isTakeable_of_isKeyword hgenerated)) fun _ => ?_) fun _ => ?_
    · exact .last (proceeds_expectKeyword _)
    · exact .cons (proceeds_expectKeyword _) hbehind
  · -- without `GENERATED` the `AS` is there
    refine .cons (.branch (fun has => .shift (isTakeable_of_is has rfl)) fun has => ?_) hbehind
    rw [Lookahead.isKeywordIn_cons, Lookahead.isKeywordIn_cons, Lookahead.isKeywordIn_nil,
      Bool.or_false, Bool.or_eq_true] at h
    exact absurd (h.resolve_left hgenerated) has

theorem proceeds_defaultValue : defaultValue.Proceeds ready true v := by
  refine .look (.ite (fun _ => proceeds_parenthesizedExpr) fun _ =>
    .ite (fun _ => proceeds_signedNumber) fun _ => .ite (fun h => .shift ?_) fun _ =>
    .ite (fun h => .shift (isTakeable_of_isName h)) fun _ => .expecting)
  rw [Bool.or_eq_true, Bool.or_eq_true] at h
  rcases h with (h | h) | h
  · exact isTakeable_of_is h rfl
  · exact isTakeable_of_is h rfl
  · exact isTakeable_of_isKeywordIn h

theorem proceeds_foreignKeyAction : foreignKeyAction.Proceeds ready true v := by
  refine .look (.ite (fun h => ?_) fun _ => .ite (fun h => ?_) fun _ => .ite (fun h => ?_) fun _ =>
    .expecting)
  · exact .cons (.shift (isTakeable_of_isKeyword h)) fun _ => .last (proceeds_expectOneOf _ _)
  · exact .shift (isTakeable_of_isKeywordIn h)
  · exact .cons (.shift (isTakeable_of_isKeyword h)) fun _ => .last (proceeds_expectKeyword _)

theorem proceeds_deferrableClause : deferrableClause.Proceeds ready true v := by
  refine .onlyIf fun h => proceeds_notThen .DEFERRABLE (by decide)
    ((Bool.or_eq_true _ _).mp h).symm fun _ => .last (.onlyIf fun h => ?_)
  exact .cons (.shift (isTakeable_of_isKeyword h)) fun _ => .last (proceeds_expectOneOf _ _)

/-- An action or a `MATCH` of a reference takes the words that begin it. -/
theorem proceeds_foreignKeyTerm (h : (startsForeignKeyAction v || v.isKeyword .MATCH) = true) :
    (branch startsForeignKeyAction (all [.shift, .shift, foreignKeyAction])
      (all [.shift, nameToken "match name"])).Proceeds ready taken v := by
  refine .branch (fun haction => ?_) fun haction => ?_
  · obtain ⟨hon, hnext⟩ := (Bool.and_eq_true _ _).mp haction
    refine .shift_twice (isTakeable_of_isKeyword hon) ?_ fun _ => .last proceeds_foreignKeyAction
    exact (TokenKind.isCalm_iff.1 (TokenKind.isCalm_of_isKeywordIn hnext)).1
  · have hmatch := ((Bool.or_eq_true _ _).mp h).resolve_left haction
    exact .cons (.shift (isTakeable_of_isKeyword hmatch)) fun _ => .last (proceeds_nameToken _)

theorem proceeds_foreignKeyClause (h : v.isKeyword .REFERENCES = true) :
    foreignKeyClause.Proceeds ready taken v := by
  refine .node (.cons (.shift (isTakeable_of_isKeyword h)) fun _ => .cons (proceeds_name _ _)
    fun _ => .cons (.onlyIf fun hparen => ?_) fun _ =>
    .cons (.loop fun _ => proceeds_foreignKeyTerm) fun _ => .last proceeds_deferrableClause)
  refine .cons (.shift (isTakeable_of_is hparen rfl)) fun _ =>
    .cons (.list fun _ hname => ?_) fun _ => .last proceeds_closeParen
  exact proceeds_name_of_isName hname _ _

/-- Where a constraint starts, the word that begins it is taken. -/
theorem proceeds_constraintBody
    (h : taken = true ∨ startsConstraint v = true ∧ ¬ v.isKeyword .CONSTRAINT = true) :
    constraintBody.Proceeds ready taken v := by
  refine .look (.ite (fun h => ?_) fun hprimary => .ite (fun h => ?_) fun hnot =>
    .ite (fun h => ?_) fun hnull => .ite (fun h => ?_) fun hcheck => .ite (fun h => ?_)
    fun hdefault => .ite (fun h => ?_) fun hcollate => .ite proceeds_foreignKeyClause
    fun hreferences => .ite proceeds_generatedColumn fun hgenerated => ?_)
  · exact .cons (.shift (isTakeable_of_isKeyword h)) fun _ => .cons (proceeds_expectKeyword _)
      fun _ => .cons (proceeds_eatOneOf _) fun _ => .cons proceeds_conflictClause fun _ =>
      .last (proceeds_eatKeyword _)
  · exact .shift_twice (isTakeable_of_isPair h).1 (isTakeable_of_isPair h).2 fun _ =>
      .last proceeds_conflictClause
  · exact .cons (.shift (isTakeable_of_isKeywordIn h)) fun _ => .last proceeds_conflictClause
  · exact .cons (.shift (isTakeable_of_isKeyword h)) fun _ => .last proceeds_parenthesizedExpr
  · exact .cons (.shift (isTakeable_of_isKeyword h)) fun _ => .last proceeds_defaultValue
  · exact .cons (.shift (isTakeable_of_isKeyword h)) fun _ => .last proceeds_collationName
  · rcases h with rfl | ⟨hstarts, hconstraint⟩
    · exact .expecting
    · simp only [Lookahead.isKeywordIn_cons, Lookahead.isKeywordIn_nil, Bool.or_eq_true,
        not_or] at hnull hgenerated
      have hpair : ¬ v.isPair .GENERATED .ALWAYS = true := fun h =>
        hgenerated.1 ((Bool.and_eq_true _ _).mp h).1
      simp only [startsConstraint, Lookahead.isKeywordIn_cons, Lookahead.isKeywordIn_nil, hprimary,
        hnot, hnull, hcheck, hdefault, hcollate, hreferences, hgenerated, hconstraint, hpair]
        at hstarts
      cases hstarts

theorem proceeds_columnConstraint (h : startsConstraint v = true) :
    columnConstraint.Proceeds ready taken v := by
  refine .node (.onlyIf_cons (fun hconstraint => ?_) fun hconstraint => ?_)
  · refine .cons (.cons (.shift (isTakeable_of_isKeyword hconstraint)) fun _ => ?_) fun _ => ?_
    · exact .last (proceeds_nameToken _)
    · exact .last (proceeds_constraintBody (.inl rfl))
  · exact .last (proceeds_constraintBody (.inr ⟨h, hconstraint⟩))

theorem proceeds_columnDefinition : columnDefinition.Proceeds ready true v :=
  .node <| .cons (proceeds_name _ _) fun _ => .cons (.onlyIf fun _ => proceeds_typeName) fun _ =>
    .last (.loop fun _ => proceeds_columnConstraint)

/-! ## Statements -/

theorem proceeds_alterAction : alterAction.Proceeds ready true v := by
  refine .look (.ite (fun h => .node ?_) fun _ => .ite (fun h => .node ?_) fun _ =>
    .ite (fun h => .node ?_) fun _ => .ite (fun h => .node ?_) fun _ =>
    .ite (fun _ => .expecting) fun _ => .recover)
  · exact .shift_twice (isTakeable_of_isPair h).1 (isTakeable_of_isPair h).2 fun _ =>
      .last (proceeds_name _ _)
  · exact .cons (.shift (isTakeable_of_isKeyword h)) fun _ => .cons (proceeds_eatKeyword _)
      fun _ => .cons (proceeds_name _ _) fun _ => .cons (proceeds_expectKeyword _) fun _ =>
      .last (proceeds_name _ _)
  · exact .cons (.shift (isTakeable_of_isKeyword h)) fun _ => .cons (proceeds_eatKeyword _)
      fun _ => .last proceeds_columnDefinition
  · exact .cons (.shift (isTakeable_of_isKeyword h)) fun _ => .cons (proceeds_eatKeyword _)
      fun _ => .last (proceeds_name _ _)

theorem proceeds_alterTable (h : v.isKeyword .ALTER = true) : alterTable.Proceeds ready taken v :=
  .node <| .cons (.shift (isTakeable_of_isKeyword h)) fun _ => .cons (proceeds_expectKeyword _)
    fun _ => .cons (.branch (fun _ => .missing) fun _ => proceeds_qualifiedName _ _) fun _ =>
    .last proceeds_alterAction

theorem proceeds_analyze (h : v.isKeyword .ANALYZE = true) : analyze.Proceeds ready taken v :=
  .node <| .cons (.shift (isTakeable_of_isKeyword h)) fun _ =>
    .last (.onlyIf fun _ => proceeds_qualifiedName _ _)

theorem proceeds_attach (h : v.isKeyword .ATTACH = true) : attach.Proceeds ready taken v :=
  .node <| .cons (.shift (isTakeable_of_isKeyword h)) fun _ => .cons (proceeds_eatKeyword _)
    fun _ => .cons proceeds_expr fun _ => .cons (proceeds_expectKeyword _) fun _ =>
    .last (proceeds_name _ _)

theorem proceeds_begin (h : v.isKeyword .BEGIN = true) : begin.Proceeds ready taken v := by
  refine .node (.cons (.shift (isTakeable_of_isKeyword h)) fun _ => .cons (proceeds_eatOneOf _)
    fun _ => .last (.onlyIf fun htransaction => ?_))
  exact .cons (.shift (isTakeable_of_isKeyword htransaction)) fun _ =>
    .last (.onlyIf fun hname => .shift (isTakeable_of_isName hname))

/-- **The rule of a statement takes the keyword that begins it.** -/
theorem proceeds_ofStatementKeyword {r : Rule} (h : ofStatementKeyword? v.current = some r) :
    r.Proceeds ready taken v := by
  unfold ofStatementKeyword? at h
  split at h <;> cases h
  · next hkind => exact proceeds_alterTable (beq_iff_eq.2 hkind)
  · next hkind => exact proceeds_select (beq_iff_eq.2 hkind)
  · next hkind => exact proceeds_analyze (beq_iff_eq.2 hkind)
  · next hkind => exact proceeds_attach (beq_iff_eq.2 hkind)
  · next hkind => exact proceeds_begin (beq_iff_eq.2 hkind)

/-- The words before a statement are taken if they are there. -/
theorem secures_explain : explain.Secures ready (fun _ _ => True) taken v := by
  show Secures ready (if v.isKeyword .EXPLAIN then _ else done) _ taken v
  split
  · next h =>
    have hexplain : (all [.shift, onlyIf (·.isKeyword .QUERY)
        (all [.shift, expectKeyword .PLAN])]).Proceeds ready taken v := by
      refine .cons (.shift (isTakeable_of_isKeyword h)) fun _ => .last (.onlyIf fun hquery => ?_)
      exact .cons (.shift (isTakeable_of_isKeyword hquery)) fun _ =>
        .last (proceeds_expectKeyword _)
    exact hexplain _ fun _ => trivial
  · trivial

end Rules

/-! ## Rules of the grammar are carried out -/

/-- **Every nonterminal unfolds to what it is parsed as.** -/
theorem goalsUnfold_all (bound : Nat) : GoalsUnfold (fun _ => True) bound :=
  goalsUnfold (fun goal v => attempts_ofNonterminal goal v _ fun _ _ h hstarts => h (.inr hstarts))
    bound

variable {s : State}

/-- **A rule that takes a token is carried out**, and leaves less to come. -/
theorem Proceeds.unfolds {r : Rule} (hs : s.input.Lawful)
    (h : r.Proceeds (fun _ => True) false s.lookahead) :
    Unfolds 0 (.rule r) s (r.parse s) ∧ (r.parse s).state.remaining < s.remaining := by
  have hsecures := h (fun taken _ => taken = true) fun _ => rfl
  obtain ⟨hunfolds, taken, hprogress, rfl⟩ := hsecures.carries 0 (goalsUnfold_all _) hs
    (Nat.le_refl _) fun ht => absurd ht Bool.false_ne_true
  exact ⟨hunfolds, (hprogress rfl).resolve_left Bool.false_ne_true⟩

theorem unfolds_explain (hs : s.input.Lawful) :
    Unfolds 0 (.rule explain) s (explain.parse s) := by
  have hsecures : explain.Secures (fun _ => True) (fun _ _ => True) false s.lookahead :=
    secures_explain
  exact (hsecures.carries 0 (goalsUnfold_all _) hs (Nat.le_refl _)
    fun ht => absurd ht Bool.false_ne_true).1

end Rule

end TolerantSql
