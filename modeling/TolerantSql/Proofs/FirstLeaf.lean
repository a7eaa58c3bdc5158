import TolerantSql.Proofs.TokenConservation
import TolerantSql.Proofs.Unfolding

/-!
# What an expression begins with

Lists of expressions and the recovery of a missing operand decide by a table of tokens
whether an expression starts (`TokenKind.startsExpression`). The rules of expressions
do not use that table: eleven levels pass the current token on to the tightest one,
which tries its alternatives one after the other and looks one token further for some
of them. This module shows that the two agree.

`Opens` says what a rule adds first where an operand is due: the current token if one
starts here, an error if none does, and nothing at an end of the input that has been
reported already. Operators leave that as it is, since they only ever add something
behind an operand that is there (`Rule.opens_chain`), so it passes from the operands through
all levels. The exception is `NOT`. It starts an expression but, `NOT EXISTS` aside, no
operand, and is dealt with on its own level before the tighter ones are asked.
-/

namespace TolerantSql

/-! ## The first leaf -/

/-- **What is added first where an operand is due**, if `starts` says whether one starts
at the current token. -/
inductive Opens (s : State) : (starts : Bool) → Outcome → Prop where
  /-- The token is taken before anything else. -/
  | token {out : Outcome} (h : (Forest.leaves out.forest).head? = some (.token s.current)) :
    Opens s true out
  /-- Something is wrong, and said so first. -/
  | error {out : Outcome} (e : SyntaxError)
    (h : (Forest.leaves out.forest).head? = some (.error e))
    (hopen : (s.atEof && s.endReported) = false) : Opens s false out
  /-- All has been said about the end of the input. -/
  | nothing (hend : (s.atEof && s.endReported) = true) : Opens s false s.stay

theorem Opens.head?_leaves {s : State} {out : Outcome} (h : Opens s true out) :
    (Forest.leaves out.forest).head? = some (.token s.current) := by
  cases h with
  | token h => exact h

theorem Opens.reports {s : State} {out : Outcome} (h : Opens s false out) :
    if s.atEof && s.endReported then out.forest = []
    else ∃ e, (Forest.leaves out.forest).head? = some (.error e) := by
  cases h with
  | error e h hopen =>
    rw [hopen, if_neg Bool.false_ne_true]
    exact ⟨e, h⟩
  | nothing hend =>
    rw [hend, if_pos rfl]
    rfl

theorem Forest.head?_leaves_append {f : Forest} {l : Leaf} (h : (leaves f).head? = some l)
    (g : Forest) : (leaves (f ++ g)).head? = some l := by
  rw [leaves_append, List.head?_append, h]
  rfl

theorem Outcome.leaves_wrap (kind : NodeKind) (out : Outcome) :
    Forest.leaves (out.wrap kind).forest = Forest.leaves out.forest :=
  List.append_nil _

/-- A step whose first leaf is a token has taken something. -/
theorem Took.ne_nil_of_head {taken : List Lexeme} {s : State} {out : Outcome} {t : Token}
    (h : Took taken s out) (hleaf : (Forest.leaves out.forest).head? = some (.token t)) :
    taken ≠ [] := by
  rintro rfl
  obtain ⟨leaves, hleaves⟩ := List.head?_eq_some_iff.1 hleaf
  have hterminals := h.terminals
  rw [Forest.terminals, hleaves] at hterminals
  cases hterminals

/-- What is taken begins with the current token. -/
theorem Took.exists_cons {taken : List Lexeme} {s : State} {out : Outcome}
    (h : Took taken s out) (hne : taken ≠ []) :
    ∃ more, s.input.pending = s.input.current :: (more ++ out.state.input.pending) := by
  obtain ⟨l, more, rfl⟩ := List.exists_cons_of_ne_nil hne
  have hpending : s.input.pending = l :: (more ++ out.state.input.pending) := h.pending
  rw [TokenStream.current_cons hpending]
  exact ⟨more, hpending⟩

namespace Rule

variable {goals : Nat → Nonterminal → Parse} {depth : Nat} {s : State}

/-- **A rule that takes the current token first adds it first.** -/
theorem TakesFirst.head?_leaves {r : Rule} (h : r.TakesFirst s.lookahead) :
    (Forest.leaves (r.run goals depth s).forest).head? = some (.token s.current) := by
  induction r with
  | shift =>
    have hshift : Rule.shift.run goals depth s = s.take := State.shift_of_isTakeable h
    rw [hshift]
    rfl
  | seq first second ih₁ ih₂ =>
    rcases h with hfirst | ⟨hidles, hsecond⟩
    · exact Forest.head?_leaves_append (ih₁ hfirst) _
    · rw [run_seq, hidles.run]
      exact ih₂ hsecond
  | look choose ih => exact ih s.lookahead h
  | node kind body ih =>
    rw [run_node, Outcome.leaves_wrap]
    exact ih h
  | _ => exact h.elim

theorem TakesFirst.opens {r : Rule} {starts : Bool} (h : r.TakesFirst s.lookahead)
    (hstarts : starts = true) : Opens s starts (r.run goals depth s) := by
  rw [hstarts]
  exact .token h.head?_leaves

end Rule

/-! ## Operands that are not there -/

section Absent

variable {goals : Nat → Nonterminal → Parse} {depth : Nat} {s : State}

theorem opens_reportEnd (hend : s.atEof = true) : Opens s false s.reportEnd := by
  rw [State.reportEnd]
  split
  · next hreported => exact .nothing (by rw [hend, hreported]; rfl)
  · next hreported =>
    exact .error .unexpectedEof rfl (by rw [Bool.eq_false_of_not_eq_true hreported, Bool.and_false])

theorem opens_missing (announced : Bool) (what : String) :
    Opens s false (s.missing announced what) := by
  rw [State.missing]
  split
  · next hend => exact opens_reportEnd hend
  · next hend =>
    exact .error _ rfl (by rw [Bool.eq_false_of_not_eq_true hend, Bool.false_and])

/-- Recovery reports before it skips. -/
theorem head?_leaves_recover (hend : s.atEof = false) (announced : Bool) (message : String)
    (sync : StopSet) :
    (Forest.leaves (s.recover announced message sync).forest).head?
      = some (.error (.expecting message)) := by
  rw [State.recover]
  refine Forest.head?_leaves_append ?_ _
  rw [State.forest_report_eq hend]
  rfl

/-- **A missing operand is reported first**, whatever is found behind what is skipped. -/
theorem opens_missingExpression :
    Opens s false (Rule.missingExpression.run goals depth s) := by
  rw [Rule.missingExpression, Rule.branch, Rule.run_look]
  split
  · exact opens_missing true "expression"
  · next hfollows =>
    have hend : s.atEof = false := by
      cases hend : s.atEof with
      | false => rfl
      | true =>
        have hkind : s.lookahead.current = .eof := Token.kind_eq_eof hend
        rw [hkind] at hfollows
        exact absurd rfl hfollows
    rw [Rule.run_all_cons]
    refine .error (.expecting "expecting expression") ?_ (by rw [hend, Bool.false_and])
    exact Forest.head?_leaves_append (head?_leaves_recover hend true _ _) _

end Absent

/-! ## Operands -/

namespace Rule

variable {v : Lookahead} {goals : Nat → Nonterminal → Parse} {depth : Nat} {s : State}

theorem startsExpression_of_isKeyword {word : Keyword} (h : v.isKeyword word = true)
    (hword : (TokenKind.keyword word).startsExpression = true) :
    v.current.startsExpression = true := by
  rw [beq_iff_eq.1 h]
  exact hword

theorem startsExpression_of_isLiteral {kind : TokenKind} (h : kind.isLiteral = true) :
    kind.startsExpression = true := by
  rw [TokenKind.startsExpression, TokenKind.startsPrimary, h]
  rfl

/-- A name starts an expression unless it is a word that can only follow one. -/
theorem startsExpression_of_isName (h : (v.isName && !v.current.followsExpression) = true) :
    v.current.startsExpression = true := by
  obtain ⟨hname, hfollows⟩ := (Bool.and_eq_true _ _).mp h
  have hprimary : v.current.startsPrimary = true := by
    unfold TokenKind.startsPrimary
    rcases (Bool.or_eq_true _ _).mp hname with hidentifier | hfallback
    · rw [hidentifier, Bool.or_true]
      rfl
    · rw [hfallback, hfollows]
      exact Bool.or_true _
  rw [TokenKind.startsExpression, hprimary]
  rfl

/-- **The alternatives of an operand and the table agree**, where a `NOT` is one of an
operand. -/
theorem opens_primary (hunary : s.lookahead.current.isUnaryOperator = false)
    (hnot : s.lookahead.isKeyword .NOT = false ∨ s.lookahead.nextIsKeyword .EXISTS = true) :
    Opens s s.current.kind.startsExpression (primary.run goals depth s) := by
  show Opens s s.lookahead.current.startsExpression _
  rw [primary, run_look]
  dsimp only
  split_ifs with hparen hcase hexists hcast hraise hname hcall hliteral
  · refine (takesFirst_parenthesized hparen).opens ?_
    rw [beq_iff_eq.1 hparen]
    rfl
  · have htakes : caseExpr.TakesFirst s.lookahead := .inl (isTakeable_of_isKeyword hcase)
    exact htakes.opens (startsExpression_of_isKeyword hcase rfl)
  · refine (takesFirst_existsTest hexists).opens ?_
    rcases (Bool.or_eq_true _ _).mp hexists with hexists | hpair
    · exact startsExpression_of_isKeyword hexists rfl
    · exact startsExpression_of_isKeyword ((Bool.and_eq_true _ _).mp hpair).1 rfl
  · have hword := ((Bool.and_eq_true _ _).mp hcast).1
    have htakes : cast.TakesFirst s.lookahead := .inl (isTakeable_of_isKeyword hword)
    exact htakes.opens (startsExpression_of_isKeyword hword rfl)
  · have hword := ((Bool.and_eq_true _ _).mp hraise).1
    have htakes : raise.TakesFirst s.lookahead := .inl (isTakeable_of_isKeyword hword)
    exact htakes.opens (startsExpression_of_isKeyword hword rfl)
  · have htakes : functionCall.TakesFirst s.lookahead :=
      .inl (isTakeable_of_isName ((Bool.and_eq_true _ _).mp hname).1)
    exact htakes.opens (startsExpression_of_isName hname)
  · have htakes : columnReference.TakesFirst s.lookahead :=
      .inl (isTakeable_of_isName ((Bool.and_eq_true _ _).mp hname).1)
    exact htakes.opens (startsExpression_of_isName hname)
  · have htakes : shift.TakesFirst s.lookahead := (TokenKind.startsOperand_of_isLiteral hliteral).1
    exact htakes.opens (startsExpression_of_isLiteral hliteral)
  · rw [Bool.not_eq_true] at hparen hcase hexists hname hliteral
    rw [startsExpression_eq_false hparen hcase hexists hname hliteral hunary hnot]
    exact opens_missingExpression

theorem opens_unary
    (hnot : s.lookahead.isKeyword .NOT = false ∨ s.lookahead.nextIsKeyword .EXISTS = true) :
    Opens s s.current.kind.startsExpression (unary.run goals depth s) := by
  rw [unary, branch, run_look]
  split
  · next hunary =>
    have htakes : (node .unary (all [shift, nested .unary])).TakesFirst s.lookahead :=
      .inl (TokenKind.opensOperand_of_isUnaryOperator hunary).1
    refine htakes.opens ?_
    show s.lookahead.current.startsExpression = true
    rw [TokenKind.startsExpression, hunary, Bool.or_true]
    rfl
  · next hunary => exact opens_primary (Bool.eq_false_of_not_eq_true hunary) hnot

/-! ## Operators -/

/-- **Links behind an operand leave what it begins with**, if there is no link at the end
of the input. -/
theorem opens_chain {starts : Bool} {kind : NodeKind} {operand link : Rule}
    {continues : Lookahead → Bool} (hstop : ∀ v, v.current = .eof → continues v = false)
    (h : Opens s starts (operand.run goals depth s)) :
    Opens s starts ((chain kind operand continues link).run goals depth s) := by
  cases hcontinues : continues (operand.run goals depth s).state.lookahead with
  | false => rwa [run_chain_of_stop hcontinues]
  | true =>
    rw [run_chain_of_continues hcontinues]
    generalize operand.run goals depth s = out at h hcontinues
    cases h with
    | token h =>
      refine .token ?_
      rw [Outcome.leaves_wrap]
      exact Forest.head?_leaves_append h _
    | error e h hopen =>
      refine .error e ?_ hopen
      rw [Outcome.leaves_wrap]
      exact Forest.head?_leaves_append h _
    | nothing hend =>
      -- where nothing was added the input has ended
      have hkind : s.lookahead.current = .eof :=
        Token.kind_eq_eof ((Bool.and_eq_true _ _).mp hend).1
      rw [State.stay, hstop _ hkind] at hcontinues
      cases hcontinues

theorem opens_binary {starts : Bool} (level : Level) {operand : Rule}
    (h : Opens s starts (operand.run goals depth s)) :
    Opens s starts ((binary level operand).run goals depth s) :=
  opens_chain (fun v hv => by rw [hv]; rfl) h

/-- No operator of the equality level stands at the end of the input. -/
theorem equalityLink?_eof (hv : v.current = .eof) : equalityLink? v = none := by
  have hnegates : negatesOperator v = false := by
    rw [negatesOperator, Lookahead.isKeyword, hv]
    rfl
  unfold equalityLink?
  rw [hnegates, hv]
  rfl

theorem opens_equality
    (hnot : s.lookahead.isKeyword .NOT = false ∨ s.lookahead.nextIsKeyword .EXISTS = true) :
    Opens s s.current.kind.startsExpression (equality.run goals depth s) := by
  have hcollate : Opens s s.current.kind.startsExpression (collate.run goals depth s) :=
    opens_chain (fun v hv => by rw [Lookahead.isKeyword, hv]; rfl) (opens_unary hnot)
  have hcomparison : Opens s s.current.kind.startsExpression (comparison.run goals depth s) :=
    opens_binary _ <| opens_binary _ <| opens_binary _ <| opens_binary _ <| opens_binary _ hcollate
  exact opens_chain (fun v hv => by rw [equalityLink?_eof hv]; rfl) hcomparison

theorem opens_negation :
    Opens s s.current.kind.startsExpression (negation.run goals depth s) := by
  show Opens s s.lookahead.current.startsExpression _
  rw [negation, branch, run_look]
  split
  · next hnot =>
    have hword := ((Bool.and_eq_true _ _).mp hnot).1
    have htakes : (node .not (all [shift, nested .negation])).TakesFirst s.lookahead :=
      .inl (isTakeable_of_isKeyword hword)
    exact htakes.opens (startsExpression_of_isKeyword hword rfl)
  · next hnot =>
    rw [Bool.not_eq_true, Bool.and_eq_false_iff, Bool.not_eq_false'] at hnot
    exact opens_equality hnot

theorem opens_disjunction :
    Opens s s.current.kind.startsExpression (disjunction.run goals depth s) :=
  opens_binary _ (opens_binary _ opens_negation)

end Rule

/-! ## Expressions -/

variable {depth : Nat} {s : State}

/-- An expression within the bound on nesting begins as the table says. -/
theorem opens_expr (hs : s.input.Lawful) (hdepth : depth < Rule.maxDepth) :
    Opens s s.current.kind.startsExpression (Rule.expr.run Nonterminal.parse depth s) := by
  have hrun : Rule.expr.run Nonterminal.parse depth s
      = Rule.disjunction.run Nonterminal.parse (depth + 1) s := by
    rw [Rule.expr, Rule.run, if_pos hdepth]
    exact Nonterminal.parse_eq_run hs fun _ _ _ _ _ => rfl
  rw [hrun]
  exact Rule.opens_disjunction

/-- **An expression begins as its table of first tokens says.** Let the parser be in any
state, at any depth of nesting, and ask for an expression. If that is not nested too
deeply: a token that can start an expression is taken, and is the first leaf that is
added; where no expression can start, the first leaf is an error, except that nothing is
added at the end of the input if that has been reported already. If it is nested too
deeply, a token that can start an expression is taken all the same. -/
theorem expr_begins (depth : Nat) (s : State) (hs : s.input.Lawful) :
    let out := Rule.expr.run Nonterminal.parse depth s
    (depth < Rule.maxDepth →
      (s.current.kind.startsExpression = true →
        (∃ more, s.input.pending = s.input.current :: (more ++ out.state.input.pending))
          ∧ (Forest.leaves out.forest).head? = some (.token s.current))
      ∧ (s.current.kind.startsExpression = false →
        if s.atEof && s.endReported then out.forest = []
        else ∃ e, (Forest.leaves out.forest).head? = some (.error e)))
    ∧ (Rule.maxDepth ≤ depth → s.current.kind.startsExpression = true →
      ∃ more, s.input.pending = s.input.current :: (more ++ out.state.input.pending)) := by
  intro out
  obtain ⟨taken, htook⟩ := Rule.expr.exists_took depth hs
  refine ⟨fun hdepth => ?_, fun hdepth hstarts => ?_⟩
  · have hopens : Opens s s.current.kind.startsExpression out := opens_expr hs hdepth
    refine ⟨fun hstarts => ?_, fun hstarts => ?_⟩
    · rw [hstarts] at hopens
      have hleaf := hopens.head?_leaves
      exact ⟨htook.exists_cons (htook.ne_nil_of_head hleaf), hleaf⟩
    · rw [hstarts] at hopens
      exact hopens.reports
  · have hrun : out = s.cutOff := by
      show Rule.run _ _ (.nested .expression) s = s.cutOff
      rw [Rule.run, if_neg (Nat.not_lt.2 hdepth)]
    have hless : out.state.remaining < s.remaining := by
      rw [hrun]
      exact State.remaining_cutOff_lt hs hstarts
    refine htook.exists_cons ?_
    rintro rfl
    rw [State.remaining, State.remaining, htook.input_eq] at hless
    exact absurd hless (Nat.lt_irrefl _)

/-- The word of a cast, where no parenthesis follows it, is taken as a name; and an
operand is missed where there is an operator only. -/
theorem expr_begins_cast :
    let s := State.start (TokenStream.ofSource "CAST * 2")
    let s' := State.start (TokenStream.ofSource "* 2")
    s.input.Lawful ∧ s'.input.Lawful ∧ 199 < Rule.maxDepth
      ∧ (Forest.leaves (Rule.expr.run Nonterminal.parse 199 s).forest).head?
        = some (.token ⟨.keyword .CAST, "CAST", ⟨0, 4⟩⟩)
      ∧ ∃ e, (Forest.leaves (Rule.expr.run Nonterminal.parse 199 s').forest).head?
        = some (.error e) := by
  intro s s'
  have hs : s.input.Lawful := TokenStream.lawful_ofSource _
  have hs' : s'.input.Lawful := TokenStream.lawful_ofSource _
  have hdepth : 199 < Rule.maxDepth := by decide
  have hcurrent : s.current = ⟨.keyword .CAST, "CAST", ⟨0, 4⟩⟩ := by decide +kernel
  have hcurrent' : s'.current.kind = .star := by decide +kernel
  have hopen : (s'.atEof && s'.endReported) = false := by decide +kernel
  have hbegins := ((expr_begins 199 s hs).1 hdepth).1 (by rw [hcurrent]; rfl)
  have hbegins' := ((expr_begins 199 s' hs').1 hdepth).2 (by rw [hcurrent']; rfl)
  rw [hcurrent] at hbegins
  rw [hopen, if_neg Bool.false_ne_true] at hbegins'
  exact ⟨hs, hs', hdepth, hbegins.2, hbegins'⟩

end TolerantSql
