import TolerantSql.Proofs.SkippedTokens

/-!
# How high trees grow

An expression that is nested too deeply is cut off, so that no source makes the
parser go down without end. What is counted for that is how often a nonterminal
was entered one level deeper. In between a tree grows by as many nodes as can be
read off the rules: from one expression to the next there are thirteen at most,
nine for the levels of binding and four for the clauses around the inner one.

At two places, though, a nonterminal is entered again on the same level, and
nothing is counted there: the bound of a window frame, and an operand that is found
behind tokens where an expression was expected. Each of them leaves a trace in the
tree, a node of its own in the first case and an error in the second, so the height of
a tree is bounded by the depth at which expressions are cut off and by the number of
these traces, thirteen nodes for each (`height_parse_le`). A tree that has neither is
never higher than 2607 nodes.

The proof reads heights off rules in two ways. Clauses are reached from the levels
of binding, and contain nothing but names of nonterminals, so their height is
computed by recursion on the rule (`Rule.Within`). The levels are taken one by one
above that, since the operand behind skipped tokens is paid for by an error that is
there for reasons no rule shows.
-/

namespace TolerantSql

/-! ## Heights -/

mutual

/-- **The height of a tree**: how many nodes there are on its longest branch. -/
def Tree.height : Tree → Nat
  | .node _ children => Forest.height children + 1
  | .leaf _ => 0

/-- The height of the highest of trees side by side. -/
def Forest.height : Forest → Nat
  | [] => 0
  | t :: rest => max t.height (Forest.height rest)

end

@[simp] theorem Tree.height_node (kind : NodeKind) (children : Forest) :
    (node kind children).height = Forest.height children + 1 := rfl

@[simp] theorem Tree.height_leaf (l : Leaf) : (leaf l).height = 0 := rfl

namespace Forest

@[simp] theorem height_nil : height [] = 0 := rfl

@[simp] theorem height_cons (t : Tree) (f : Forest) :
    height (t :: f) = max t.height (height f) := rfl

@[simp] theorem height_append (f g : Forest) : height (f ++ g) = max (height f) (height g) := by
  induction f with
  | nil => simp
  | cons t f ih => rw [List.cons_append, height_cons, height_cons, ih, max_assoc]

theorem height_eq_zero {f : Forest} (h : ∀ t ∈ f, ∃ l, t = .leaf l) : height f = 0 := by
  induction f with
  | nil => rfl
  | cons t f ih =>
    obtain ⟨⟨l, rfl⟩, hf⟩ := List.forall_mem_cons.1 h
    rw [height_cons, ih hf, Tree.height_leaf, max_self]

/-- **The places where an expression may have begun without being counted**: the
bounds of window frames and the errors that expect an expression. -/
def uncounted (f : Forest) : Nat :=
  (nodes f).countP (fun n => n.1 == .frameBound)
    + (errors f).count (.expecting "expecting expression")

@[simp] theorem uncounted_append (f g : Forest) :
    uncounted (f ++ g) = uncounted f + uncounted g := by
  simp only [uncounted, errors, nodes_append, leaves_append, List.countP_append,
    List.filterMap_append, List.count_append]
  omega

theorem uncounted_node (kind : NodeKind) (f : Forest) :
    uncounted [.node kind f] = uncounted f + if kind = .frameBound then 1 else 0 := by
  simp only [uncounted, errors, nodes_cons, nodes_nil, leaves_cons, leaves_nil, List.append_nil,
    Tree.nodes_node, Tree.leaves_node, List.countP_cons, beq_iff_eq]
  omega

theorem uncounted_singleton (t : Tree) :
    uncounted [t] = t.nodes.countP (fun n => n.1 == .frameBound)
      + t.errors.count (.expecting "expecting expression") := by
  rw [uncounted, errors_singleton, nodes_cons, nodes_nil, List.append_nil]

/-- Reports are no higher than the node of what is skipped. -/
theorem Reports.height_le {f : Forest} (h : f.Reports) : height f ≤ 1 := by
  cases h with
  | errors h =>
    have hleaves : height f = 0 := height_eq_zero fun t ht => by
      obtain ⟨e, rfl⟩ := h t ht
      exact ⟨_, rfl⟩
    exact hleaves.le.trans (Nat.zero_le _)
  | @skipped message f hne htokens =>
    have hleaves : height f = 0 := height_eq_zero fun t ht => by
      obtain ⟨t, rfl, -⟩ := htokens t ht
      exact ⟨_, rfl⟩
    simp [hleaves]

end Forest

/-! ## Steps that raise a tree -/

/-- **A step at a depth that makes trees of bounded height**: `n` nodes, thirteen for
each level to the depth at which expressions are cut off, and as many for each place
where an expression may have begun without being counted. -/
def Rises (depth n : Nat) (s : State) (out : Outcome) : Prop :=
  (∃ taken, Took taken s out)
    ∧ out.forest.height ≤ n + 13 * (Rule.maxDepth - depth + out.forest.uncounted)

namespace State

theorem height_shift (s : State) : s.shift.forest.height = 0 := by
  rw [shift]
  split <;> rfl

theorem height_reportEnd (s : State) : s.reportEnd.forest.height = 0 := by
  rw [reportEnd]
  split <;> rfl

theorem height_missing (s : State) (announced : Bool) (what : String) :
    (s.missing announced what).forest.height = 0 := by
  rw [missing]
  split
  · exact s.height_reportEnd
  · rfl

theorem height_expecting (s : State) (message : String) :
    (s.expecting message).forest.height = 0 := by
  rw [expecting]
  split
  · exact s.height_reportEnd
  · rfl

end State

namespace Rises

variable {depth n m : Nat} {s : State} {out : Outcome}

theorem mono (h : Rises depth n s out) (hle : n ≤ m) : Rises depth m s out :=
  ⟨h.1, h.2.trans (by omega)⟩

theorem of_leaves (htook : ∃ taken, Took taken s out) (h : out.forest.height = 0) :
    Rises depth n s out :=
  ⟨htook, h.le.trans (Nat.zero_le _)⟩

theorem of_reports (hn : 0 < n) (htook : ∃ taken, Took taken s out) (h : out.forest.Reports) :
    Rises depth n s out :=
  ⟨htook, h.height_le.trans (by omega)⟩

/-- Steps behind each other are as high as the higher one. -/
theorem append {out' : Outcome} (h : Rises depth n s out) (h' : Rises depth n out.state out') :
    Rises depth n s ⟨out.forest ++ out'.forest, out'.state⟩ := by
  obtain ⟨htook, hf⟩ := h
  obtain ⟨htook', hg⟩ := h'
  refine ⟨Took.stepInvariant.andThen htook htook', ?_⟩
  rw [Forest.height_append, Forest.uncounted_append]
  omega

theorem node (h : Rises depth n s out) (kind : NodeKind) :
    Rises depth (n + 1) s (out.wrap kind) := by
  obtain ⟨⟨taken, htook⟩, hheight⟩ := h
  refine ⟨⟨taken, htook.wrap kind⟩, ?_⟩
  simp only [Outcome.wrap, Forest.height_cons, Forest.height_nil, Tree.height_node,
    Forest.uncounted_node]
  omega

/-- The bound of a frame pays for the expression that begins in it. -/
theorem frameBound (h : Rises depth 12 s out) : Rises depth n s (out.wrap .frameBound) := by
  obtain ⟨⟨taken, htook⟩, hheight⟩ := h
  refine ⟨⟨taken, htook.wrap .frameBound⟩, ?_⟩
  simp only [Outcome.wrap, Forest.height_cons, Forest.height_nil, Tree.height_node,
    Forest.uncounted_node, if_true]
  omega

/-- An expression one level deeper. -/
theorem deeper (h : Rises (depth + 1) 14 s out) (hn : 0 < n) (hdepth : depth < Rule.maxDepth) :
    Rises depth n s out :=
  ⟨h.1, h.2.trans (by omega)⟩

/-- An error pays for the expression that begins behind it, and for what is skipped before
that. -/
theorem behind_error {out' : Outcome} (htook : ∃ taken, Took taken s out)
    (h : out.forest.Reports) (herror : 0 < out.forest.uncounted)
    (h' : Rises depth 12 out.state out') :
    Rises depth n s ⟨out.forest ++ out'.forest, out'.state⟩ := by
  obtain ⟨htook', hg⟩ := h'
  have hf := h.height_le
  refine ⟨Took.stepInvariant.andThen htook htook', ?_⟩
  rw [Forest.height_append, Forest.uncounted_append]
  omega

/-- Every step but a node, which adds to the height, keeps it where there is room for a
node of skipped tokens. -/
theorem stepInvariant (depth : Nat) (hn : 0 < n) :
    StepInvariant (fun _ => False) (Rises depth n) where
  lawful := fun ⟨⟨_, htook⟩, _⟩ hs => htook.lawful hs
  stay s := of_leaves (Took.stepInvariant.stay s) rfl
  andThen := append
  wrap := fun _ _ hkind => hkind.elim
  shift s hs := of_leaves (Took.stepInvariant.shift s hs) s.height_shift
  missing s announced what hs :=
    of_leaves (Took.stepInvariant.missing s announced what hs) (s.height_missing announced what)
  expecting s message hs :=
    of_leaves (Took.stepInvariant.expecting s message hs) (s.height_expecting message)
  recover s announced message sync hs :=
    of_reports hn (Took.stepInvariant.recover s announced message sync hs)
      (State.reports_recover hs announced message sync)
  cutOff s hs := of_reports hn (Took.stepInvariant.cutOff s hs) (State.reports_cutOff hs)

end Rises

/-! ## Clauses -/

/-- By how many nodes the trees of a nonterminal may be higher than thirteen for each
level below it. -/
def Nonterminal.rise : Nonterminal → Nat
  | expression => 14
  | negation => 12
  | unary => 5

/-- The end of the input follows an expression, if anything. -/
theorem TokenKind.isEof_of_followsExpression {kind : TokenKind}
    (h : kind.followsExpression = false) : kind.isEof = false := by
  cases kind <;> first | rfl | cases h

namespace Rule

open StepInvariant (Holds)

/-- **A rule makes at most `n` nodes above each other**, those of the nonterminals it
nests aside. What is below the bound of a frame does not count, as long as it begins no
looser than a negation. -/
def Within : Rule → Nat → Prop
  | seq first second, n => first.Within n ∧ second.Within n
  | look choose, n => ∀ v, (choose v).Within n
  | node kind body, n =>
    if kind = .frameBound then body.Within Nonterminal.negation.rise
    else 0 < n ∧ body.Within (n - 1)
  | chain _ operand _ link, n => 1 < n ∧ operand.Within (n - 1) ∧ link.Within (n - 1)
  | loop _ body, n => 0 < n ∧ body.Within n
  | list _ item, n => 0 < n ∧ item.Within n
  | nested _, n | recover .., n => 0 < n
  | resume goal, n => goal.rise ≤ n
  | done, _ | shift, _ | missing .., _ | expecting _, _ => True

theorem Within.mono {r : Rule} {n m : Nat} (h : r.Within n) (hle : n ≤ m) : r.Within m := by
  induction r generalizing n m with
  | seq first second ih₁ ih₂ => exact ⟨ih₁ h.1 hle, ih₂ h.2 hle⟩
  | look choose ih => exact fun v => ih v (h v) hle
  | node kind body ih =>
    rw [Within] at h ⊢
    split
    · next hkind => rwa [if_pos hkind] at h
    · next hkind =>
      rw [if_neg hkind] at h
      exact ⟨h.1.trans_le hle, ih h.2 (by omega)⟩
  | chain kind operand continues link ih₁ ih₂ =>
    exact ⟨h.1.trans_le hle, ih₁ h.2.1 (by omega), ih₂ h.2.2 (by omega)⟩
  | loop continues body ih => exact ⟨h.1.trans_le hle, ih h.2 hle⟩
  | list shape item ih => exact ⟨h.1.trans_le hle, ih h.2 hle⟩
  | nested goal => exact Nat.lt_of_lt_of_le h hle
  | recover announced message sync => exact Nat.lt_of_lt_of_le h hle
  | resume goal => exact Nat.le_trans h hle
  | _ => trivial

section Soundness

variable {goals : Nat → Nonterminal → Parse} {depth n : Nat}

/-- A node is there only if there is a link, and is one higher than what it holds. -/
theorem rises_chain {operand link : Rule} (kind : NodeKind) (continues : Lookahead → Bool)
    (hn : 0 < n) (hoperand : Holds (Rises depth n) (operand.run goals depth))
    (hlink : Holds (Rises depth n) (link.run goals depth)) :
    Holds (Rises depth (n + 1)) ((chain kind operand continues link).run goals depth) := by
  have hinvariant := Rises.stepInvariant depth hn
  intro s hs
  rw [run]
  dsimp only
  split
  · exact (hinvariant.seq hoperand (hinvariant.repeatWhile continues hlink) s hs).node kind
  · exact (hoperand s hs).mono (Nat.le_succ _)

/-- **A rule makes no higher trees than can be read off it**, if the nonterminals it
refers to rise as they should. -/
theorem Within.rises {r : Rule} (h : r.Within n)
    (hgoals : ∀ depth (goal : Nonterminal), Holds (Rises depth goal.rise) (goals depth goal)) :
    Holds (Rises depth n) (r.run goals depth) := by
  induction r generalizing n with
  | done => exact fun s _ => .of_leaves (Took.stepInvariant.stay s) rfl
  | seq first second ih₁ ih₂ =>
    intro s hs
    have hfirst := ih₁ h.1 s hs
    obtain ⟨taken, htook⟩ := hfirst.1
    exact hfirst.append (ih₂ h.2 _ (htook.lawful hs))
  | look choose ih => exact fun s hs => ih s.lookahead (h s.lookahead) s hs
  | shift => exact fun s hs => .of_leaves (Took.stepInvariant.shift s hs) s.height_shift
  | missing announced what =>
    exact fun s hs => .of_leaves (Took.stepInvariant.missing s announced what hs)
      (s.height_missing announced what)
  | expecting message =>
    exact fun s hs => .of_leaves (Took.stepInvariant.expecting s message hs)
      (s.height_expecting message)
  | recover announced message sync =>
    exact fun s => (Rises.stepInvariant depth h).recover s announced message sync
  | node kind body ih =>
    intro s hs
    rw [Within] at h
    split at h
    · next hkind =>
      subst hkind
      exact (ih h s hs).frameBound
    · obtain ⟨k, rfl⟩ := Nat.exists_eq_succ_of_ne_zero (Nat.ne_of_gt h.1)
      exact (ih h.2 s hs).node kind
  | chain kind operand continues link ih₁ ih₂ =>
    obtain ⟨hn, hoperand, hlink⟩ := h
    obtain ⟨k, rfl⟩ := Nat.exists_eq_succ_of_ne_zero (Nat.ne_of_gt (Nat.lt_of_succ_lt hn))
    exact rises_chain kind continues (Nat.lt_of_succ_lt_succ hn) (ih₁ hoperand) (ih₂ hlink)
  | loop continues body ih => exact (Rises.stepInvariant depth h.1).repeatWhile continues (ih h.2)
  | list shape item ih =>
    have hinvariant := Rises.stepInvariant depth h.1
    exact hinvariant.listRounds shape (hinvariant.listRound shape (ih h.2)) .item
  | nested goal =>
    intro s hs
    rw [run]
    split
    · next hdepth =>
      have hrise : goal.rise ≤ 14 := by cases goal <;> decide
      exact ((hgoals _ goal s hs).mono hrise).deeper h hdepth
    · exact (Rises.stepInvariant depth h).cutOff s hs
  | resume goal => exact fun s hs => (hgoals depth goal s hs).mono h

end Soundness

section Clauses

variable {n : Nat}

attribute [local simp] Within all branch onlyIf eat eatKeyword eatOneOf expect expectKeyword
  expectOneOf nameToken name qualifiedName closeParen collationName expr expressionList

@[local simp] theorem within_ite {c : Prop} [Decidable c] {yes no : Rule} :
    (if c then yes else no).Within n ↔ (c → yes.Within n) ∧ (¬ c → no.Within n) := by
  split <;> simp [*]

theorem within_select (h : 3 ≤ n) : select.Within n := by
  refine Within.mono ?_ h
  simp [select, resultColumn, columnAlias]

theorem within_subquery (h : 4 ≤ n) : subquery.Within n := by
  refine Within.mono ?_ h
  simp [subquery, within_select]

theorem within_orderBy (h : 3 ≤ n) : orderBy.Within n := by
  refine Within.mono ?_ h
  simp [orderBy, orderingTerm]

theorem within_typeName (h : 2 ≤ n) : typeName.Within n := by
  refine Within.mono ?_ h
  simp [typeName, signedNumber]

/-- What a frame holds is paid for by its bounds. -/
theorem within_frameSpec (h : 2 ≤ n) : frameSpec.Within n := by
  refine Within.mono ?_ h
  simp [frameSpec, frameBound, frameExclude]

theorem within_overClause (h : 4 ≤ n) : overClause.Within n := by
  refine Within.mono ?_ h
  simp [overClause, windowDefinition, within_orderBy, within_frameSpec]

theorem within_functionCall : functionCall.Within 5 := by
  simp [functionCall, filterClause, within_orderBy, within_overClause]

theorem within_parenthesized : parenthesized.Within 5 := by
  simp [parenthesized, within_subquery]

theorem within_cast : cast.Within 5 := by
  simp [cast, within_typeName]

theorem within_existsTest : existsTest.Within 5 := by
  simp [existsTest, within_subquery]

theorem within_caseExpr : caseExpr.Within 5 := by
  simp [caseExpr, whenArm, elseArm]

theorem within_raise : raise.Within 5 := by
  simp [raise]

theorem within_columnReference : columnReference.Within 5 := by
  simp [columnReference, columnPart]

theorem within_inTarget : inTarget.Within 11 := by
  simp [inTarget, within_subquery]

theorem within_columnDefinition : columnDefinition.Within 4 := by
  simp [columnDefinition, within_typeName, columnConstraint, constraintBody, conflictClause,
    parenthesizedExpr, defaultValue, signedNumber, foreignKeyClause, foreignKeyAction,
    deferrableClause, generatedColumn]

theorem within_explain : explain.Within 6 := by
  simp [explain]

/-- **The rules of statements make at most six nodes above each other.** -/
theorem within_ofStatementKeyword {kind : TokenKind} {r : Rule}
    (h : ofStatementKeyword? kind = some r) : r.Within 6 := by
  unfold ofStatementKeyword? at h
  split at h <;> cases h
  · simp [alterTable, alterAction, within_columnDefinition]
  · exact within_select (by decide)
  · simp [analyze]
  · simp [attach]
  · simp [begin]

end Clauses

/-! ## Levels of binding -/

section Levels

variable {goals : Nat → Nonterminal → Parse} {depth n : Nat}
  (hgoals : ∀ depth (goal : Nonterminal), Holds (Rises depth goal.rise) (goals depth goal))

include hgoals

/-- Behind skipped tokens an operand begins on the same level. The end of the input can
only follow an expression, so there is an error before that operand. -/
theorem rises_missingExpression :
    Holds (Rises depth n) (missingExpression.run goals depth) := by
  intro s hs
  rw [missingExpression, branch, run]
  dsimp only
  split
  · exact .of_leaves (Took.stepInvariant.missing s true "expression" hs) (s.height_missing true _)
  · next hfollows =>
    have hend : s.atEof = false :=
      TokenKind.isEof_of_followsExpression (Bool.eq_false_iff.2 hfollows)
    have htook := Took.stepInvariant.recover s true "expecting expression" .expression hs
    have herror : 0 < (s.recover true "expecting expression" .expression).forest.uncounted := by
      rw [State.recover, Outcome.andThen, State.forest_report_eq hend, Forest.uncounted_append]
      exact Nat.lt_of_lt_of_le Nat.one_pos (Nat.le_add_right 1 _)
    refine Rises.behind_error htook (State.reports_recover hs _ _ _) herror ?_
    refine Within.rises (r := all [onlyIf (·.current.startsExpression) (resume .negation)])
      ?_ hgoals _ (Took.stepInvariant.lawful htook hs)
    simp [all, onlyIf, branch, Within, within_ite, Nonterminal.rise]

/-- **An expression without operators.** -/
theorem rises_primary : Holds (Rises depth 5) (primary.run goals depth) := by
  intro s hs
  rw [primary, run]
  dsimp only
  split_ifs
  · exact within_parenthesized.rises hgoals s hs
  · exact within_caseExpr.rises hgoals s hs
  · exact within_existsTest.rises hgoals s hs
  · exact within_cast.rises hgoals s hs
  · exact within_raise.rises hgoals s hs
  · exact within_functionCall.rises hgoals s hs
  · exact within_columnReference.rises hgoals s hs
  · exact .of_leaves (Took.stepInvariant.shift s hs) s.height_shift
  · exact rises_missingExpression hgoals s hs

theorem rises_unary : Holds (Rises depth 5) (unary.run goals depth) := by
  intro s hs
  rw [unary, branch, run]
  dsimp only
  split
  · have hwithin : (node .unary (all [shift, nested .unary])).Within 5 := by simp [all, Within]
    exact hwithin.rises hgoals s hs
  · exact rises_primary hgoals s hs

theorem rises_collate : Holds (Rises depth 6) (collate.run goals depth) := by
  have hlink : (all [shift, collationName]).Within 5 := by
    simp [all, collationName, nameToken, branch, Within, within_ite]
  exact rises_chain _ _ (by decide) (rises_unary hgoals) (hlink.rises hgoals)

omit hgoals in
/-- Each level of binary operators adds a node. -/
theorem rises_binary (level : Level) {operand : Rule} (hn : 0 < n)
    (h : Holds (Rises depth n) (operand.run goals depth)) :
    Holds (Rises depth (n + 1)) ((binary level operand).run goals depth) :=
  have hinvariant := Rises.stepInvariant depth hn
  have hlink := hinvariant.seq hinvariant.shift (hinvariant.seq h fun s _ => hinvariant.stay s)
  rises_chain _ _ hn h hlink

theorem rises_comparison : Holds (Rises depth 11) (comparison.run goals depth) :=
  rises_binary _ (by decide) <| rises_binary _ (by decide) <| rises_binary _ (by decide) <|
    rises_binary _ (by decide) <| rises_binary _ (by decide) <| rises_collate hgoals

theorem rises_equality : Holds (Rises depth 12) (equality.run goals depth) := by
  have hinvariant : StepInvariant _ (Rises depth 11) := Rises.stepInvariant depth (by decide)
  have hlink (v : Lookahead) :
      Holds (Rises depth 11) (((equalityLink? v).getD done).run goals depth) := by
    refine equalityLink_induct (P := fun r => Holds (Rises depth 11) (r.run goals depth))
      (fun s _ => hinvariant.stay s) (fun h h' => hinvariant.seq h h') (fun test h s hs => ?_)
      hinvariant.shift (fun word => ?_) (within_inTarget.rises hgoals) (rises_comparison hgoals) v
    · rw [onlyIf, branch, run]
      dsimp only
      split
      · exact h s hs
      · exact hinvariant.stay s
    · have hwithin : (expectKeyword word).Within 11 := by
        simp [expectKeyword, expect, branch, Within, within_ite]
      exact hwithin.rises hgoals
  exact rises_chain _ _ (by decide) (rises_comparison hgoals) fun s hs => hlink s.lookahead s hs

theorem rises_negation : Holds (Rises depth 12) (negation.run goals depth) := by
  intro s hs
  rw [negation, branch, run]
  dsimp only
  split
  · have hwithin : (node .not (all [shift, nested .negation])).Within 12 := by simp [all, Within]
    exact hwithin.rises hgoals s hs
  · exact rises_equality hgoals s hs

/-- **The rule of a nonterminal rises as it should** if nonterminals do. -/
theorem rises_ofNonterminal (goal : Nonterminal) :
    Holds (Rises depth goal.rise) ((ofNonterminal goal).run goals depth) := by
  cases goal with
  | expression =>
    exact rises_binary _ (by decide) <| rises_binary _ (by decide) <| rises_negation hgoals
  | negation => exact rises_negation hgoals
  | unary => exact rises_unary hgoals

end Levels

end Rule

/-! ## Nonterminals and statements -/

open StepInvariant (Holds)

/-- **Nonterminals rise as they should**, at every depth. -/
theorem Nonterminal.rises_parse (depth : Nat) (goal : Nonterminal) :
    Holds (Rises depth goal.rise) (goal.parse depth) := by
  intro s
  induction depth, goal, s using Nonterminal.parse.induct with
  | case1 depth goal s ih =>
    rw [Nonterminal.parse]
    refine Rule.rises_ofNonterminal (fun depth' goal' s' hs' => ?_) goal s
    split
    · next hless => exact ih depth' goal' s' hless hs'
    · exact .of_leaves (Took.stepInvariant.stay s') rfl

/-- **Trees of bounded height** that stand side by side in a statement. -/
def Forest.Low (f : Forest) : Prop := height f ≤ 6 + 13 * (Rule.maxDepth + uncounted f)

theorem Forest.Low.append {f g : Forest} (hf : f.Low) (hg : g.Low) : (f ++ g).Low := by
  rw [Low] at hf hg ⊢
  rw [height_append, uncounted_append]
  omega

theorem Forest.Reports.low {f : Forest} (h : f.Reports) : f.Low := h.height_le.trans (by omega)

/-- A rule that makes few nodes above each other. -/
theorem Rule.Within.low {r : Rule} (h : r.Within 6) {s : State} (hs : s.input.Lawful) :
    (r.parse s).forest.Low := (h.rises Nonterminal.rises_parse s hs).2

theorem State.low_statement {s : State} (hs : s.input.Lawful) : s.statement.forest.Low :=
  statement_induct Forest.Low.append Forest.Reports.low (fun _ => Nat.zero_le _)
    Rule.within_explain.low (fun hr => (Rule.within_ofStatementKeyword hr).low) hs

/-- **Nesting is bounded by what is counted and what leaves a trace.** No tree of any
source has more nodes above each other than seven for the statement, thirteen for each
level up to the depth at which expressions are cut off, and thirteen for each bound of a
window frame and each error that expects an expression. -/
theorem height_parse_le (source : String) (statement : Statement)
    (hmem : statement ∈ parse source) :
    statement.tree.height
      ≤ 7 + 13 * (Rule.maxDepth
        + statement.tree.nodes.countP (fun n => n.1 == .frameBound)
        + statement.tree.errors.count (.expecting "expecting expression")) := by
  obtain ⟨parsed, hparsed, rfl⟩ := List.mem_map.1 hmem
  obtain ⟨input, hlawful, -, -, rfl⟩ :=
    TokenStream.exists_of_mem_parseAll (TokenStream.lawful_ofSource source) hparsed
  have hs : (State.start input).input.Lawful := hlawful
  have hlow := State.low_statement hs
  rw [Nat.add_assoc, ← Forest.uncounted_singleton]
  calc input.parseStatement.statement.tree.height
      = (State.start input).statement.forest.height + 1 := rfl
    _ ≤ 6 + 13 * (Rule.maxDepth + (State.start input).statement.forest.uncounted) + 1 :=
      Nat.succ_le_succ hlow
    _ = 7 + 13 * (Rule.maxDepth + Forest.uncounted [input.parseStatement.statement.tree]) := by
      rw [Statement.tree, Forest.uncounted_node, if_neg nofun, Nat.add_zero, Nat.add_right_comm]
      rfl

/-- One frame allows for one level more. -/
theorem height_parse_le_frame :
    ∃ statement ∈ parse "SELECT f()OVER(ROWS 1 PRECEDING)",
      statement.tree.nodes.countP (fun n => n.1 == .frameBound) = 1 ∧ statement.tree.errors = []
        ∧ statement.tree.height ≤ 7 + 13 * (Rule.maxDepth + 1 + 0) := by
  have hany : (parse "SELECT f()OVER(ROWS 1 PRECEDING)").any (fun statement =>
      statement.tree.nodes.countP (fun n => n.1 == .frameBound) == 1
        && statement.tree.errors == []) = true := by
    decide +kernel
  obtain ⟨statement, hmem, htree⟩ := List.any_eq_true.1 hany
  rw [Bool.and_eq_true, beq_iff_eq, beq_iff_eq] at htree
  have hle := height_parse_le _ statement hmem
  rw [htree.1, htree.2] at hle
  exact ⟨statement, hmem, htree.1, htree.2, hle⟩

end TolerantSql
