import TolerantSql.Proofs.TakenTokens
import TolerantSql.Proofs.TokenPairs

/-!
# Nonterminals mean their rules

A nonterminal is parsed by its rule, in which nonterminals mean themselves, except
that one that is asked for without progress gets nothing. This module shows that
the exception never happens: the rules of the grammar take a token before they ask
for a nonterminal, or ask for a tighter one. So a nonterminal is what its rule says
(`Nonterminal.parse_eq_run`), and it does not matter what nonterminals are taken to
mean where there is no progress.

Once a token has been taken nothing has to be checked, since whatever a rule asks
for then has fewer tokens to come (`Rule.run_congr`). What is left are the rules of
the levels up to their first token. `Rule.TakesFirst` reads off a rule, for what it
sees, that it takes the current token before anything else. The one place where a
nonterminal is entered at the token where its caller was is the recovery of a
missing operand, at a `NOT` that stands behind a prefix operator.
-/

namespace TolerantSql

/-- Going on with steps that do the same. -/
theorem Outcome.andThen_congr {out : Outcome} {step step' : Parse}
    (h : step out.state = step' out.state) : out.andThen step = out.andThen step' := by
  rw [andThen, andThen, h]

namespace Rule

/-! ## Rules at a state -/

section Running

variable {goals : Nat → Nonterminal → Parse} {depth : Nat} {s : State}

theorem run_seq (first second : Rule) : (seq first second).run goals depth s
    = (first.run goals depth s).andThen (second.run goals depth) := rfl

theorem run_all_cons (r : Rule) (rules : List Rule) : (all (r :: rules)).run goals depth s
    = (r.run goals depth s).andThen ((all rules).run goals depth) := rfl

theorem run_look (choose : Lookahead → Rule) :
    (look choose).run goals depth s = (choose s.lookahead).run goals depth s := rfl

theorem run_node (kind : NodeKind) (body : Rule) :
    (node kind body).run goals depth s = (body.run goals depth s).wrap kind := rfl

/-- An operand with links behind it. -/
theorem run_chain_of_continues {kind : NodeKind} {operand link : Rule}
    {continues : Lookahead → Bool}
    (h : continues (operand.run goals depth s).state.lookahead = true) :
    (chain kind operand continues link).run goals depth s
      = ((operand.run goals depth s).andThen
          (State.repeatWhile continues (link.run goals depth))).wrap kind := if_pos h

/-- A lone operand stands for itself. -/
theorem run_chain_of_stop {kind : NodeKind} {operand link : Rule} {continues : Lookahead → Bool}
    (h : continues (operand.run goals depth s).state.lookahead = false) :
    (chain kind operand continues link).run goals depth s = operand.run goals depth s :=
  if_neg (by rw [h]; exact Bool.false_ne_true)

end Running

/-! ## Rules that take a token first -/

/-- Whether a rule does nothing at what it sees. -/
def Idles (v : Lookahead) : Rule → Prop
  | done => True
  | seq first second => first.Idles v ∧ second.Idles v
  | look choose => (choose v).Idles v
  | _ => False

/-- **Whether a rule takes the current token first**, for what it sees. -/
def TakesFirst (v : Lookahead) : Rule → Prop
  | shift => v.current.isTakeable = true
  | seq first second => first.TakesFirst v ∨ first.Idles v ∧ second.TakesFirst v
  | look choose => (choose v).TakesFirst v
  | node _ body => body.TakesFirst v
  | _ => False

theorem Idles.run {s : State} {r : Rule} (h : r.Idles s.lookahead)
    (goals : Nat → Nonterminal → Parse) (depth : Nat) : r.run goals depth s = s.stay := by
  induction r with
  | done => rfl
  | seq first second ih₁ ih₂ =>
    rw [run_seq, ih₁ h.1, Outcome.andThen]
    dsimp only [State.stay]
    rw [ih₂ h.2]
    rfl
  | look choose ih => exact ih s.lookahead h
  | _ => exact h.elim

end Rule

/-! ## Runs that agree -/

theorem Took.remaining_le {taken : List Lexeme} {s : State} {out : Outcome}
    (h : Took taken s out) : out.state.remaining ≤ s.remaining := by
  rw [State.remaining, State.remaining, h.pending, List.length_append]
  exact Nat.le_add_left _ _

/-- A step that takes something leaves less to come. -/
theorem Took.remaining_lt {taken : List Lexeme} {s : State} {out : Outcome}
    (h : Took taken s out) (hne : taken ≠ []) : out.state.remaining < s.remaining := by
  have hlength := List.length_pos_iff.2 hne
  rw [State.remaining, State.remaining, h.pending, List.length_append]
  omega

/-- A token that can be taken is taken. -/
theorem State.shift_of_isTakeable {s : State} (h : s.current.kind.isTakeable = true) :
    s.shift = s.take := by
  rw [TokenKind.isTakeable, Bool.and_eq_true, Bool.not_eq_true', Bool.not_eq_true'] at h
  rw [shift, atEnd, h.1, h.2]
  rfl

theorem State.remaining_shift {s : State} (hs : s.input.Lawful)
    (h : s.current.kind.isTakeable = true) : s.shift.state.remaining < s.remaining := by
  have hend : s.atEnd = false := by
    rw [TokenKind.isTakeable, Bool.and_eq_true, Bool.not_eq_true'] at h
    exact h.1
  obtain ⟨l, -, htook⟩ := Took.take_current hs hend
  rw [State.shift_of_isTakeable h]
  exact htook.remaining_lt (List.cons_ne_nil _ _)

/-- A step that takes lexemes from the front of the input, as rules do. -/
abbrev Parse.Steady (step : Parse) : Prop :=
  StepInvariant.Holds (fun s out => ∃ taken, Took taken s out) step

/-- Two steps that do the same where fewer than `bound` tokens are to come. -/
def Parse.AgreeBelow (bound : Nat) (step step' : Parse) : Prop :=
  ∀ s : State, s.input.Lawful → s.remaining < bound → step s = step' s

namespace State

variable {bound : Nat} {body body' item item' : Parse}

/-- Repeating steps that agree where the repetition goes on. -/
theorem repeatWhile_congr (continues : Lookahead → Bool) (hsteady : Parse.Steady body)
    (h : ∀ s : State, s.input.Lawful → s.remaining < bound → continues s.lookahead = true →
      body s = body' s) :
    Parse.AgreeBelow bound (repeatWhile continues body) (repeatWhile continues body') := by
  intro s hs hless
  induction s using repeatWhile.induct continues body with
  | case1 s hcontinues out hprogress ih =>
    have hbody := h s hs hless hcontinues
    obtain ⟨taken, htook⟩ := hsteady s hs
    rw [repeatWhile_of_progress hcontinues hprogress,
      repeatWhile_of_progress hcontinues (hbody ▸ hprogress), ← hbody]
    exact Outcome.andThen_congr (ih (htook.lawful hs) (Nat.lt_trans hprogress hless))
  | case2 s hcontinues out hprogress =>
    have hbody := h s hs hless hcontinues
    rw [repeatWhile_of_stuck hcontinues hprogress,
      repeatWhile_of_stuck hcontinues (hbody ▸ hprogress), hbody]
  | case3 s hstop =>
    rw [repeatWhile_of_stop (Bool.eq_false_iff.2 hstop),
      repeatWhile_of_stop (Bool.eq_false_iff.2 hstop)]

theorem listRound_congr {s : State} (h : item s = item' s) (shape : ListShape)
    (phase : ListPhase) : listRound shape item phase s = listRound shape item' phase s := by
  unfold listRound
  rw [h]

theorem listRounds_congr (hsteady : Parse.Steady item) (h : Parse.AgreeBelow bound item item')
    (shape : ListShape) (phase : ListPhase) :
    Parse.AgreeBelow bound (listRounds shape item phase) (listRounds shape item' phase) := by
  intro s hs hless
  induction phase, s using listRounds.induct shape item with
  | case1 phase s out hlast =>
    have hlast' := listRound_congr (h s hs hless) shape phase ▸ hlast
    rw [listRounds_of_last hlast, listRounds_of_last hlast']
  | case2 phase s out phase' hnext hprogress ih =>
    have hnext' := listRound_congr (h s hs hless) shape phase ▸ hnext
    obtain ⟨taken, htook⟩ := Took.stepInvariant.listRound shape hsteady phase s hs
    rw [hnext] at htook
    rw [listRounds_of_progress hnext hprogress, listRounds_of_progress hnext' hprogress]
    exact Outcome.andThen_congr
      (ih (htook.lawful hs) (Nat.lt_of_le_of_lt htook.remaining_le hless))
  | case3 phase s out phase' hnext hprogress =>
    have hnext' := listRound_congr (h s hs hless) shape phase ▸ hnext
    rw [listRounds_of_stuck hnext hprogress, listRounds_of_stuck hnext' hprogress]

end State

namespace Rule

section Agreement

variable {goals goals' : Nat → Nonterminal → Parse} {bound depth : Nat} {s : State}

theorem steady_run (hsteady : ∀ depth goal, Parse.Steady (goals depth goal)) (depth : Nat)
    (r : Rule) : Parse.Steady (r.run goals depth) :=
  Took.stepInvariant.run hsteady depth r.makes_any

/-- Chains of which the operand and the links agree. -/
theorem run_chain_eq {kind : NodeKind} {operand link : Rule} {continues : Lookahead → Bool}
    (h : operand.run goals depth s = operand.run goals' depth s)
    (hlinks : State.repeatWhile continues (link.run goals depth) (operand.run goals depth s).state
      = State.repeatWhile continues (link.run goals' depth) (operand.run goals depth s).state) :
    (chain kind operand continues link).run goals depth s
      = (chain kind operand continues link).run goals' depth s := by
  cases hcontinues : continues (operand.run goals depth s).state.lookahead with
  | true =>
    rw [run_chain_of_continues hcontinues, run_chain_of_continues (h ▸ hcontinues), ← h,
      Outcome.andThen_congr hlinks]
  | false => rw [run_chain_of_stop hcontinues, run_chain_of_stop (h ▸ hcontinues), h]

/-- **Nonterminals that agree below a bound** make rules that do. -/
theorem run_congr (hsteady : ∀ depth goal, Parse.Steady (goals depth goal))
    (hgoals : ∀ depth goal, Parse.AgreeBelow bound (goals depth goal) (goals' depth goal))
    (depth : Nat) (r : Rule) : Parse.AgreeBelow bound (r.run goals depth) (r.run goals' depth) := by
  induction r with
  | seq first second ih₁ ih₂ =>
    intro s hs hless
    obtain ⟨taken, htook⟩ := steady_run hsteady depth first s hs
    rw [run_seq, run_seq, ← ih₁ s hs hless]
    exact Outcome.andThen_congr
      (ih₂ _ (htook.lawful hs) (Nat.lt_of_le_of_lt htook.remaining_le hless))
  | look choose ih => exact fun s hs hless => ih s.lookahead s hs hless
  | node kind body ih =>
    intro s hs hless
    rw [run_node, run_node, ih s hs hless]
  | chain kind operand continues link ih₁ ih₂ =>
    intro s hs hless
    obtain ⟨taken, htook⟩ := steady_run hsteady depth operand s hs
    have hlinks := State.repeatWhile_congr continues (steady_run hsteady depth link)
      (fun s hs hless _ => ih₂ s hs hless) _ (htook.lawful hs)
      (Nat.lt_of_le_of_lt htook.remaining_le hless)
    exact run_chain_eq (ih₁ s hs hless) hlinks
  | loop continues body ih =>
    exact State.repeatWhile_congr continues (steady_run hsteady depth body) fun s hs hless _ =>
      ih s hs hless
  | list shape item ih =>
    exact State.listRounds_congr (steady_run hsteady depth item) ih shape .item
  | nested goal =>
    intro s hs hless
    rw [Rule.run, Rule.run]
    split
    · exact hgoals _ goal s hs hless
    · rfl
  | resume goal => exact hgoals depth goal
  | _ => exact fun _ _ _ => rfl

/-- A rule that takes a token first may also begin at the bound. -/
theorem TakesFirst.run_congr (hsteady : ∀ depth goal, Parse.Steady (goals depth goal))
    (hgoals : ∀ depth goal, Parse.AgreeBelow bound (goals depth goal) (goals' depth goal))
    (hs : s.input.Lawful) (hle : s.remaining ≤ bound) {r : Rule} (h : r.TakesFirst s.lookahead) :
    r.run goals depth s = r.run goals' depth s
      ∧ (r.run goals depth s).state.remaining < s.remaining := by
  induction r with
  | shift => exact ⟨rfl, State.remaining_shift hs h⟩
  | seq first second ih₁ ih₂ =>
    rcases h with hfirst | ⟨hidles, hsecond⟩
    · obtain ⟨hsame, hless⟩ := ih₁ hfirst
      obtain ⟨taken, htook⟩ := steady_run hsteady depth first s hs
      have hs' := htook.lawful hs
      obtain ⟨taken', htook'⟩ := steady_run hsteady depth second _ hs'
      refine ⟨?_, Nat.lt_of_le_of_lt htook'.remaining_le hless⟩
      rw [run_seq, run_seq, ← hsame]
      exact Outcome.andThen_congr
        (Rule.run_congr hsteady hgoals depth second _ hs' (Nat.lt_of_lt_of_le hless hle))
    · obtain ⟨hsame, hless⟩ := ih₂ hsecond
      rw [run_seq, run_seq, hidles.run, hidles.run]
      dsimp only [Outcome.andThen, State.stay]
      exact ⟨by rw [hsame], hless⟩
  | look choose ih => exact ih s.lookahead h
  | node kind body ih =>
    obtain ⟨hsame, hless⟩ := ih h
    rw [run_node, run_node, ← hsame]
    exact ⟨rfl, hless⟩
  | _ => exact h.elim

/-- An operand and links that each take a token first. -/
theorem run_chain_congr (hsteady : ∀ depth goal, Parse.Steady (goals depth goal))
    (hgoals : ∀ depth goal, Parse.AgreeBelow bound (goals depth goal) (goals' depth goal))
    (hs : s.input.Lawful) (hle : s.remaining ≤ bound) {kind : NodeKind} {operand link : Rule}
    {continues : Lookahead → Bool} (hlink : ∀ v, continues v = true → link.TakesFirst v)
    (h : operand.run goals depth s = operand.run goals' depth s) :
    (chain kind operand continues link).run goals depth s
      = (chain kind operand continues link).run goals' depth s := by
  obtain ⟨taken, htook⟩ := steady_run hsteady depth operand s hs
  have hlinks : Parse.AgreeBelow (bound + 1) (State.repeatWhile continues (link.run goals depth))
      (State.repeatWhile continues (link.run goals' depth)) :=
    State.repeatWhile_congr continues (steady_run hsteady depth link)
      fun s' hs' hless hcontinues => ((hlink _ hcontinues).run_congr hsteady hgoals hs'
        (Nat.le_of_lt_succ hless)).1
  exact run_chain_eq h (hlinks _ (htook.lawful hs)
    (Nat.lt_succ_of_le (Nat.le_trans htook.remaining_le hle)))

end Agreement

/-! ## Operands take a token first -/

section Operands

variable {v : Lookahead}

theorem isTakeable_of_isName (h : v.isName = true) : v.current.isTakeable = true :=
  (TokenKind.isCalm_iff.1 (TokenKind.isCalm_of_isName h)).1

theorem isTakeable_of_isKeyword {word : Keyword} (h : v.isKeyword word = true) :
    v.current.isTakeable = true := by
  rw [beq_iff_eq.1 h]
  rfl

theorem takesFirst_branch {test : Lookahead → Bool} {yes no : Rule}
    (hyes : test v = true → yes.TakesFirst v) (hno : test v = false → no.TakesFirst v) :
    (branch test yes no).TakesFirst v := by
  show TakesFirst v (if test v then yes else no)
  split
  · next h => exact hyes h
  · next h => exact hno (Bool.eq_false_of_not_eq_true h)

theorem takesFirst_subquery (h : v.is .leftParen = true) : subquery.TakesFirst v := by
  refine .inl (takesFirst_branch (fun _ => ?_) fun hno => absurd h (by rw [hno]; exact nofun))
  show v.current.isTakeable = true
  rw [beq_iff_eq.1 h]
  rfl

theorem takesFirst_parenthesized (h : v.is .leftParen = true) : parenthesized.TakesFirst v := by
  refine takesFirst_branch (fun _ => takesFirst_subquery h) fun _ => .inl ?_
  show v.current.isTakeable = true
  rw [beq_iff_eq.1 h]
  rfl

theorem takesFirst_existsTest (h : (v.isKeyword .EXISTS || v.isPair .NOT .EXISTS) = true) :
    existsTest.TakesFirst v := by
  have hshift : v.current.isTakeable = true := by
    rcases (Bool.or_eq_true _ _).mp h with h | h
    · exact isTakeable_of_isKeyword h
    · exact isTakeable_of_isKeyword ((Bool.and_eq_true _ _).mp h).1
  -- the `NOT` is taken if there is one, and the `EXISTS` otherwise
  cases hnot : v.is (.keyword .NOT) with
  | true =>
    refine .inl ?_
    show TakesFirst v (if v.is (.keyword .NOT) then shift else done)
    rw [hnot]
    exact hshift
  | false =>
    refine .inr ⟨?_, .inl hshift⟩
    show Idles v (if v.is (.keyword .NOT) then shift else done)
    rw [hnot]
    trivial

/-- Where no operand is found, none can start, up to prefix operators and `NOT`. -/
theorem startsExpression_eq_false (hparen : v.is .leftParen = false)
    (hcase : v.isKeyword .CASE = false)
    (hexists : (v.isKeyword .EXISTS || v.isPair .NOT .EXISTS) = false)
    (hname : (v.isName && !v.current.followsExpression) = false)
    (hliteral : v.current.isLiteral = false) (hunary : v.current.isUnaryOperator = false)
    (hnot : v.isKeyword .NOT = false ∨ v.nextIsKeyword .EXISTS = true) :
    v.current.startsExpression = false := by
  have hnot' : (v.current == .keyword .NOT) = false := by
    rcases hnot with hnot | hnext
    · exact hnot
    · rw [Bool.or_eq_false_iff, Lookahead.isPair, hnext, Bool.and_true] at hexists
      exact hexists.2
  have hidentifier : (v.current == .identifier) = false := by
    by_contra h
    rw [Bool.not_eq_false, beq_iff_eq] at h
    rw [Lookahead.isName, h] at hname
    cases hname
  have hfallback : (v.current.isKeywordIn fallbackKeywords && !v.current.followsExpression)
      = false := by
    rwa [Lookahead.isName, TokenKind.isName, hidentifier, Bool.false_or] at hname
  have hkeyword : v.current.isKeywordIn [.CASE, .EXISTS] = false := by
    rw [Bool.or_eq_false_iff] at hexists
    cases hkind : v.current with
    | keyword word =>
      have hcase' := hcase
      have hexists' := hexists.1
      rw [Lookahead.isKeyword, hkind] at hcase' hexists'
      simp only [beq_eq_false_iff_ne, ne_eq, TokenKind.keyword.injEq] at hcase' hexists'
      simp [TokenKind.isKeywordIn, TokenKind.keyword?, hcase', hexists']
    | _ => rfl
  replace hparen : (v.current == .leftParen) = false := hparen
  rw [TokenKind.startsExpression, TokenKind.startsPrimary, hliteral, hparen, hidentifier, hkeyword,
    hfallback, hunary, hnot']
  rfl

end Operands

/-! ## The rules of the levels -/

section Levels

variable {goals goals' : Nat → Nonterminal → Parse} {bound depth : Nat} {s : State}

/-- What is behind recovery is entered with fewer tokens to come, or at the token that
could not be an operand but can start an expression. -/
theorem run_missingExpression_congr
    (hgoals : ∀ depth goal, Parse.AgreeBelow bound (goals depth goal) (goals' depth goal))
    (hs : s.input.Lawful) (hle : s.remaining ≤ bound)
    (h : Parse.AgreeBelow (bound + 1) (goals depth .negation) (goals' depth .negation)
      ∨ s.lookahead.current.startsExpression = false) :
    missingExpression.run goals depth s = missingExpression.run goals' depth s := by
  rw [missingExpression, branch, run_look, run_look]
  split
  · rfl
  have htook := Took.recover hs true "expecting expression" .expression
  rw [run_all_cons, run_all_cons]
  refine Outcome.andThen_congr ?_
  rw [run_all_cons, run_all_cons]
  refine congrArg (fun out : Outcome => out.andThen State.stay) ?_
  rw [onlyIf, branch, run_look, run_look]
  split
  · next hstarts =>
    have hlawful := htook.lawful hs
    rcases h with h | hnone
    · exact h _ hlawful (Nat.lt_succ_of_le (Nat.le_trans htook.remaining_le hle))
    · refine hgoals depth .negation _ hlawful (Nat.lt_of_lt_of_le (htook.remaining_lt ?_) hle)
      -- had nothing been skipped, the token would still be one that starts nothing
      intro hnil
      rw [hnil] at htook
      replace hnone : s.current.kind.startsExpression = false := hnone
      rw [← htook.current_eq] at hnone
      exact Bool.false_ne_true (hnone.symm.trans hstarts)
  · rfl

theorem run_primary_congr (hsteady : ∀ depth goal, Parse.Steady (goals depth goal))
    (hgoals : ∀ depth goal, Parse.AgreeBelow bound (goals depth goal) (goals' depth goal))
    (hs : s.input.Lawful) (hle : s.remaining ≤ bound)
    (hunary : s.lookahead.current.isUnaryOperator = false)
    (h : Parse.AgreeBelow (bound + 1) (goals depth .negation) (goals' depth .negation)
      ∨ s.lookahead.isKeyword .NOT = false ∨ s.lookahead.nextIsKeyword .EXISTS = true) :
    primary.run goals depth s = primary.run goals' depth s := by
  have hfirst : ∀ {r : Rule}, r.TakesFirst s.lookahead →
      r.run goals depth s = r.run goals' depth s := fun hr =>
    (hr.run_congr hsteady hgoals hs hle).1
  rw [primary, run_look, run_look]
  dsimp only
  split_ifs with hparen hcase hexists hcast hraise hname hcall hliteral
  · exact hfirst (takesFirst_parenthesized hparen)
  · exact hfirst (.inl (isTakeable_of_isKeyword hcase))
  · exact hfirst (takesFirst_existsTest hexists)
  · exact hfirst (.inl (isTakeable_of_isKeyword ((Bool.and_eq_true _ _).mp hcast).1))
  · exact hfirst (.inl (isTakeable_of_isKeyword ((Bool.and_eq_true _ _).mp hraise).1))
  · exact hfirst (.inl (isTakeable_of_isName ((Bool.and_eq_true _ _).mp hname).1))
  · exact hfirst (.inl (isTakeable_of_isName ((Bool.and_eq_true _ _).mp hname).1))
  · rfl
  · rw [Bool.not_eq_true] at hparen hcase hexists hname hliteral
    refine run_missingExpression_congr hgoals hs hle (h.imp_right fun hnot => ?_)
    exact startsExpression_eq_false hparen hcase hexists hname hliteral hunary hnot

theorem run_unary_congr (hsteady : ∀ depth goal, Parse.Steady (goals depth goal))
    (hgoals : ∀ depth goal, Parse.AgreeBelow bound (goals depth goal) (goals' depth goal))
    (hs : s.input.Lawful) (hle : s.remaining ≤ bound)
    (h : Parse.AgreeBelow (bound + 1) (goals depth .negation) (goals' depth .negation)
      ∨ s.lookahead.isKeyword .NOT = false ∨ s.lookahead.nextIsKeyword .EXISTS = true) :
    unary.run goals depth s = unary.run goals' depth s := by
  rw [unary, branch, run_look, run_look]
  split
  · next hunary =>
    have htakes : (node .unary (all [shift, nested .unary])).TakesFirst s.lookahead :=
      .inl (TokenKind.opensOperand_of_isUnaryOperator hunary).1
    exact (htakes.run_congr hsteady hgoals hs hle).1
  · next hunary =>
    exact run_primary_congr hsteady hgoals hs hle (Bool.eq_false_of_not_eq_true hunary) h

theorem run_binary_congr (hsteady : ∀ depth goal, Parse.Steady (goals depth goal))
    (hgoals : ∀ depth goal, Parse.AgreeBelow bound (goals depth goal) (goals' depth goal))
    (hs : s.input.Lawful) (hle : s.remaining ≤ bound) (level : Level) {operand : Rule}
    (h : operand.run goals depth s = operand.run goals' depth s) :
    (binary level operand).run goals depth s = (binary level operand).run goals' depth s := by
  refine run_chain_congr hsteady hgoals hs hle (fun v hv => .inl ?_) h
  exact (TokenKind.opensOperand_of_operatorLevel (beq_iff_eq.1 hv)).1

/-- Every operator of the equality level takes a token first. -/
theorem takesFirst_equalityLink {v : Lookahead} (h : (equalityLink? v).isSome = true) :
    ((equalityLink? v).getD done).TakesFirst v := by
  have htakes : (if negatesOperator v then v.next else v.current).isTakeable = true →
      v.current.isTakeable = true := by
    cases hnegated : negatesOperator v with
    | true => exact fun _ => isTakeable_of_isKeyword ((Bool.and_eq_true _ _).mp hnegated).1
    | false => exact fun h => h
  have hoperator : ∀ {operator : TokenKind} {words : List Keyword},
      operator.isKeywordIn words = true → operator.isTakeable = true := fun h =>
    (TokenKind.isCalm_iff.1 (TokenKind.isCalm_of_isKeywordIn h)).1
  have hkeyword : ∀ {operator : TokenKind} {word : Keyword},
      (operator == .keyword word) = true → operator.isTakeable = true := fun h => by
    rw [beq_iff_eq.1 h]
    rfl
  have hshift : v.current.isTakeable = true →
      (if negatesOperator v then all [.shift, .shift] else .shift).TakesFirst v := fun h => by
    split
    · exact .inl h
    · exact h
  unfold equalityLink? at h ⊢
  dsimp only at h ⊢
  -- which of the two tokens the operator is does not matter from here on
  generalize (if negatesOperator v then v.next else v.current) = operator at h htakes ⊢
  generalize (if negatesOperator v then all [.shift, .shift] else .shift) = shiftOperator
    at h hshift ⊢
  split_ifs at h ⊢ with heq hnull hnotNull his hbetween hin hpattern
  · exact .inl (htakes (TokenKind.opensOperand_of_operatorLevel (beq_iff_eq.1 heq)).1)
  · exact htakes (hoperator hnull)
  · exact hshift (htakes (hkeyword ((Bool.and_eq_true _ _).mp hnotNull).1))
  · exact .inl (htakes (hkeyword his))
  · exact .inl (hshift (htakes (hkeyword hbetween)))
  · exact .inl (hshift (htakes (hkeyword hin)))
  · exact .inl (hshift (htakes (hoperator hpattern)))
  · cases h

theorem run_negation_congr (hsteady : ∀ depth goal, Parse.Steady (goals depth goal))
    (hgoals : ∀ depth goal, Parse.AgreeBelow bound (goals depth goal) (goals' depth goal))
    (hs : s.input.Lawful) (hle : s.remaining ≤ bound) :
    negation.run goals depth s = negation.run goals' depth s := by
  rw [negation, branch, run_look, run_look]
  split
  · next hnot =>
    have htakes : (node .not (all [shift, nested .negation])).TakesFirst s.lookahead :=
      .inl (isTakeable_of_isKeyword ((Bool.and_eq_true _ _).mp hnot).1)
    exact (htakes.run_congr hsteady hgoals hs hle).1
  · next hnot =>
    rw [Bool.not_eq_true, Bool.and_eq_false_iff, Bool.not_eq_false'] at hnot
    have hunary : unary.run goals depth s = unary.run goals' depth s :=
      run_unary_congr hsteady hgoals hs hle (.inr hnot)
    have hcollate : collate.run goals depth s = collate.run goals' depth s :=
      run_chain_congr hsteady hgoals hs hle (fun v hv => .inl (isTakeable_of_isKeyword hv)) hunary
    have hcomparison : comparison.run goals depth s = comparison.run goals' depth s :=
      run_binary_congr hsteady hgoals hs hle _ <| run_binary_congr hsteady hgoals hs hle _ <|
        run_binary_congr hsteady hgoals hs hle _ <| run_binary_congr hsteady hgoals hs hle _ <|
        run_binary_congr hsteady hgoals hs hle _ hcollate
    exact run_chain_congr hsteady hgoals hs hle (fun v hv => takesFirst_equalityLink hv) hcomparison

end Levels

end Rule

/-- **A nonterminal means its rule**, whatever nonterminals are taken to mean where
there is no progress. -/
theorem Nonterminal.parse_eq_run {depth : Nat} {goal : Nonterminal} {s : State}
    (hs : s.input.Lawful) {goals : Nat → Nonterminal → Parse}
    (hgoals : ∀ depth' goal' (s' : State), s'.input.Lawful → goal'.weight s' < goal.weight s →
      goals depth' goal' s' = goal'.parse depth' s') :
    goal.parse depth s = (Rule.ofNonterminal goal).run goals depth s := by
  rw [Nonterminal.parse]
  -- what nonterminals mean in the rule of one
  set lighter : Nat → Nonterminal → Parse := fun depth' goal' s' =>
    if _h : goal'.weight s' < goal.weight s then goal'.parse depth' s' else s'.stay
  have hlighter : ∀ depth' goal' s', goal'.weight s' < goal.weight s →
      lighter depth' goal' s' = goal'.parse depth' s' := fun _ _ _ h => dif_pos h
  have hsteady : ∀ depth' goal', Parse.Steady (lighter depth' goal') := by
    intro depth' goal' s' hs'
    by_cases h : goal'.weight s' < goal.weight s
    · rw [hlighter depth' goal' s' h]
      exact Took.stepInvariant.nonterminal (fun _ => Rule.makes_any _) depth' goal' s' hs'
    · rw [show lighter depth' goal' s' = s'.stay from dif_neg h]
      exact Took.stepInvariant.stay s'
  -- a token less outweighs the rank of a nonterminal
  have hbelow : ∀ depth' goal', Parse.AgreeBelow s.remaining (lighter depth' goal')
      (goals depth' goal') := by
    intro depth' goal' s' hs' hless
    have hweight : goal'.weight s' < goal.weight s := by
      have hrank : goal'.rank ≤ 2 := by cases goal' <;> decide
      unfold weight
      omega
    rw [hlighter depth' goal' s' hweight, hgoals depth' goal' s' hs' hweight]
  have hnegation : Rule.negation.run lighter depth s = Rule.negation.run goals depth s :=
    Rule.run_negation_congr hsteady hbelow hs (Nat.le_refl _)
  cases goal with
  | expression =>
    exact Rule.run_binary_congr hsteady hbelow hs (Nat.le_refl _) _ <|
      Rule.run_binary_congr hsteady hbelow hs (Nat.le_refl _) _ hnegation
  | negation => exact hnegation
  | unary =>
    refine Rule.run_unary_congr hsteady hbelow hs (Nat.le_refl _) (.inl ?_)
    intro s' hs' hless
    have hweight : weight .negation s' < weight .unary s := by
      show 3 * s'.remaining + 0 < 3 * s.remaining + 1
      omega
    rw [hlighter depth .negation s' hweight, hgoals depth .negation s' hs' hweight]

end TolerantSql
