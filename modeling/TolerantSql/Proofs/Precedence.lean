import TolerantSql.Proofs.Adjacency
import TolerantSql.Proofs.GrammarNodes
import TolerantSql.Proofs.Recursion
import TolerantSql.Proofs.StatementTokens
import TolerantSql.Proofs.TokenConservation
import TolerantSql.Proofs.TreeNodes

/-!
# Trees bind as their operators do

In the tree of an accepted statement every operator stands in a node of its own
level, between operands that bind more tightly. `NodeKind.Fits` says what the
children of an operator node are, and `parse_binds` that all of them are so.

A node is put around whatever a rule has added, so that it fits depends on each
rule of the levels adding exactly one operand. That is what `Yields` is about: a
step that reports nothing adds trees of a certain shape, among which all nodes
fit. Clauses need no look, since their nodes always fit. The three nonterminals are
shown to add one operand by induction on what is left to do; where there is no
progress they may be taken to report an error (`Nonterminal.parse_eq_run`), of
which nothing has to be shown.
-/

namespace TolerantSql

/-! ## Operands and operators -/

/-- Kinds of nodes that hold an expression without operators. -/
def NodeKind.isPrimary : NodeKind → Bool
  | columnReference | functionCall | parenthesized | subquery | cast | existsTest | caseExpr
  | raise => true
  | _ => false

namespace Tree

/-- A token of which the kind has a property. -/
def IsToken (p : TokenKind → Prop) (t : Tree) : Prop := ∃ u, t = .token u ∧ p u.kind

/-- **An operand that binds at least as tightly as the operators of a rank**: a
literal, an expression without operators, or the node of a level that is as tight. -/
def IsOperand (rank : Nat) (t : Tree) : Prop :=
  t.IsToken (·.isLiteral = true) ∨ (∃ kind f, t = .node kind f ∧ kind.isPrimary = true)
    ∨ ∃ (level : Level) (f : Forest), t = .node level.nodeKind f ∧ rank ≤ level.rank

theorem IsOperand.mono {rank rank' : Nat} {t : Tree} (h : t.IsOperand rank) (hle : rank' ≤ rank) :
    t.IsOperand rank' :=
  h.imp_right (.imp_right fun ⟨level, f, ht, hrank⟩ => ⟨level, f, ht, Nat.le_trans hle hrank⟩)

end Tree

/-- **Operands with operators of a level between them**, at least two. -/
structure Alternates (level : Level) (children : Forest) : Prop where
  odd : children.length % 2 = 1
  long : 3 ≤ children.length
  operators : ∀ i t, children[i]? = some t → i % 2 = 1 →
    t.IsToken (·.operatorLevel? = some level)
  operands : ∀ i t, children[i]? = some t → i % 2 = 0 → t.IsOperand (level.rank + 1)

/-- **What the children of an operator node are**, by the kind of the node. Of other
nodes nothing is said. -/
def NodeKind.Fits : NodeKind → Forest → Prop
  | or, f => Alternates .or f
  | and, f => Alternates .and f
  | comparison, f => Alternates .comparison f
  | bitwise, f => Alternates .bitwise f
  | additive, f => Alternates .additive f
  | multiplicative, f => Alternates .multiplicative f
  | concatenation, f => Alternates .concatenation f
  | not, f => ∃ operator operand, f = [operator, operand]
    ∧ operator.IsToken (· = .keyword .NOT) ∧ operand.IsOperand Level.not.rank
  | unary, f => ∃ operator operand, f = [operator, operand]
    ∧ operator.IsToken (·.isUnaryOperator = true) ∧ operand.IsOperand Level.unary.rank
  | collate, f => ∃ operand links, f = operand :: links.flatten
    ∧ operand.IsOperand Level.unary.rank ∧ links ≠ []
    ∧ ∀ link ∈ links, ∃ operator name, link = [operator, name]
      ∧ operator.IsToken (· = .keyword .COLLATE)
      ∧ name.IsToken fun kind => kind.isName = true ∨ kind = .string
  | equality, f => ∃ operand rest, f = operand :: rest
    ∧ operand.IsOperand (Level.equality.rank + 1)
  | _, _ => True

theorem NodeKind.IsClause.fits {kind : NodeKind} (h : kind.IsClause) (f : Forest) :
    kind.Fits f := by
  cases kind <;> first | trivial | simp [IsClause] at h

/-- Pairs side by side, by the parity of the position. -/
theorem Forest.pairs_flatten {A B : Tree → Prop} {links : List Forest}
    (h : ∀ link ∈ links, ∃ operator operand, link = [operator, operand] ∧ A operator
      ∧ B operand) :
    links.flatten.length = 2 * links.length
      ∧ ∀ i t, links.flatten[i]? = some t → (i % 2 = 0 → A t) ∧ (i % 2 = 1 → B t) := by
  induction links with
  | nil => exact ⟨rfl, nofun⟩
  | cons link links ih =>
    obtain ⟨⟨operator, operand, rfl, hoperator, hoperand⟩, hlinks⟩ := List.forall_mem_cons.1 h
    obtain ⟨hlength, hrest⟩ := ih hlinks
    rw [List.flatten_cons, List.cons_append, List.cons_append, List.nil_append]
    refine ⟨by rw [List.length_cons, List.length_cons, hlength, List.length_cons]; omega, ?_⟩
    rintro (_ | _ | i) t ht
    · cases ht
      exact ⟨fun _ => hoperator, nofun⟩
    · cases ht
      exact ⟨nofun, fun _ => hoperand⟩
    · rw [List.getElem?_cons_succ, List.getElem?_cons_succ] at ht
      exact ⟨fun heven => (hrest i t ht).1 (by omega), fun hodd => (hrest i t ht).2 (by omega)⟩

/-- An operand with operators and operands behind it. -/
theorem Alternates.of_links {level : Level} {first : Tree} {links : List Forest}
    (hfirst : first.IsOperand (level.rank + 1)) (hne : links ≠ [])
    (hlinks : ∀ link ∈ links, ∃ operator operand, link = [operator, operand]
      ∧ operator.IsToken (·.operatorLevel? = some level) ∧ operand.IsOperand (level.rank + 1)) :
    Alternates level (first :: links.flatten) := by
  obtain ⟨hlength, hpairs⟩ := Forest.pairs_flatten hlinks
  have hpos := List.length_pos_iff.2 hne
  refine ⟨?_, ?_, ?_, ?_⟩
  · rw [List.length_cons, hlength]
    omega
  · rw [List.length_cons, hlength]
    omega
  · rintro (_ | i) t ht hodd
    · cases hodd
    · exact (hpairs i t ht).1 (by omega)
  · rintro (_ | i) t ht heven
    · cases ht
      exact hfirst
    · exact (hpairs i t ht).2 (by omega)

/-! ## Steps that report nothing -/

/-- What a step comes to that reports nothing. -/
structure Fitted (out : Outcome) : Prop where
  lawful : out.state.input.Lawful
  reported : out.state.endReported = false
  fits : ∀ n ∈ Forest.nodes out.forest, n.1.Fits n.2

namespace Fitted

theorem stay {s : State} (hs : s.input.Lawful) (hreported : s.endReported = false) :
    Fitted s.stay := ⟨hs, hreported, nofun⟩

/-- Tokens have no nodes. -/
theorem shift {s : State} (hs : s.input.Lawful) (hreported : s.endReported = false) :
    Fitted s.shift := by
  obtain ⟨taken, htook⟩ := Took.shift hs
  have hlawful := htook.lawful hs
  refine ⟨hlawful, ?_, ?_⟩
  all_goals
    rw [State.shift]
    split
  · exact hreported
  · exact hreported
  · exact List.forall_mem_nil _
  · exact List.forall_mem_nil _

theorem append {out out' : Outcome} (h : Fitted out) (h' : Fitted out') :
    Fitted ⟨out.forest ++ out'.forest, out'.state⟩ := by
  refine ⟨h'.lawful, h'.reported, fun n hn => ?_⟩
  rw [Forest.nodes_append] at hn
  exact (List.mem_append.1 hn).elim (h.fits n) (h'.fits n)

theorem andThen {out : Outcome} {step : Parse} (h : Fitted out)
    (h' : Fitted (step out.state)) : Fitted (out.andThen step) := h.append h'

/-- Trees gathered in a node that they fit. -/
theorem wrap {out : Outcome} {kind : NodeKind} (h : Fitted out) (hkind : kind.Fits out.forest) :
    Fitted (out.wrap kind) := by
  refine ⟨h.lawful, h.reported, fun n hn => ?_⟩
  replace hn : n ∈ (Tree.node kind out.forest).nodes ++ [] := hn
  rw [List.append_nil, Tree.nodes_node] at hn
  exact (List.mem_cons.1 hn).elim (fun h => h ▸ hkind) (h.fits n)

end Fitted

/-- **A step that adds trees of a shape**, where it sees something that `P` holds of
and if it reports nothing. -/
def Yields (P : Lookahead → Prop) (step : Parse) (Q : Forest → Prop) : Prop :=
  ∀ s : State, s.input.Lawful → s.endReported = false → P s.lookahead →
    Forest.errors (step s).forest = [] → Fitted (step s) ∧ Q (step s).forest

/-- Nothing in particular is seen. -/
abbrev Lookahead.any : Lookahead → Prop := fun _ => True

namespace Yields

variable {P : Lookahead → Prop} {Q Q' : Forest → Prop} {step step' body : Parse}

theorem pre {P' : Lookahead → Prop} (h : Yields P step Q) (hpre : ∀ v, P' v → P v) :
    Yields P' step Q := fun s hs hreported hv => h s hs hreported (hpre _ hv)

theorem post (h : Yields P step Q) (hpost : ∀ f, Q f → Q' f) : Yields P step Q' :=
  fun s hs hreported hv herrors => (h s hs hreported hv herrors).imp_right (hpost _)

/-- A step that reports something may add anything. -/
theorem of_errors (h : ∀ s : State, s.endReported = false → Forest.errors (step s).forest ≠ []) :
    Yields P step Q := fun s _ hreported _ herrors => absurd herrors (h s hreported)

/-- Doing nothing adds nothing. -/
theorem stay : Yields P State.stay fun f => f = [] := fun _ hs hreported _ _ =>
  ⟨.stay hs hreported, rfl⟩

theorem seq (h : Yields P step Q) (h' : Yields Lookahead.any step' Q') :
    Yields P (fun s => (step s).andThen step') fun f => ∃ g g', f = g ++ g' ∧ Q g ∧ Q' g' := by
  intro s hs hreported hv herrors
  obtain ⟨herrors₁, herrors₂⟩ := Forest.errors_append_eq_nil.1 herrors
  obtain ⟨hfitted, hq⟩ := h s hs hreported hv herrors₁
  obtain ⟨hfitted', hq'⟩ := h' _ hfitted.lawful hfitted.reported trivial herrors₂
  exact ⟨hfitted.andThen hfitted', _, _, rfl, hq, hq'⟩

theorem wrap (h : Yields P step Q) (kind : NodeKind) (hfits : ∀ f, Q f → kind.Fits f) :
    Yields P (fun s => (step s).wrap kind) fun f => ∃ g, f = [.node kind g] := by
  intro s hs hreported hv herrors
  replace herrors : Forest.errors [.node kind (step s).forest] = [] := herrors
  rw [Forest.errors_node] at herrors
  obtain ⟨hfitted, hq⟩ := h s hs hreported hv herrors
  exact ⟨hfitted.wrap (hfits _ hq), _, rfl⟩

/-- The current token is taken. -/
theorem shift {p : TokenKind → Prop} (hp : ∀ kind, p kind → kind.isTakeable = true) :
    Yields (fun v => p v.current) State.shift fun f => ∃ t, f = [t] ∧ t.IsToken p := by
  intro s hs hreported hv _
  refine ⟨.shift hs hreported, ?_⟩
  rw [State.shift_of_isTakeable (hp _ hv)]
  exact ⟨_, rfl, _, rfl, hv⟩

/-- **Rounds that each add trees of a shape.** There is one if there is cause for it. -/
theorem repeatWhile {continues : Lookahead → Bool}
    (h : Yields (fun v => continues v = true) body Q) {s : State} (hs : s.input.Lawful)
    (hreported : s.endReported = false)
    (herrors : Forest.errors (s.repeatWhile continues body).forest = []) :
    Fitted (s.repeatWhile continues body)
      ∧ ∃ links : List Forest, (s.repeatWhile continues body).forest = links.flatten
        ∧ (continues s.lookahead = true → links ≠ []) ∧ ∀ link ∈ links, Q link := by
  induction s using State.repeatWhile.induct continues body with
  | case1 s hcontinues out hless ih =>
    rw [State.repeatWhile_of_progress hcontinues hless] at herrors ⊢
    obtain ⟨herrors₁, herrors₂⟩ := Forest.errors_append_eq_nil.1 herrors
    obtain ⟨hfitted, hq⟩ := h s hs hreported hcontinues herrors₁
    obtain ⟨hfitted', links, hforest, -, hlinks⟩ := ih hfitted.lawful hfitted.reported herrors₂
    refine ⟨hfitted.andThen hfitted', (body s).forest :: links, ?_,
      fun _ => List.cons_ne_nil _ _, List.forall_mem_cons.2 ⟨hq, hlinks⟩⟩
    rw [List.flatten_cons, ← hforest]
    rfl
  | case2 s hcontinues out hless =>
    rw [State.repeatWhile_of_stuck hcontinues hless] at herrors ⊢
    obtain ⟨hfitted, hq⟩ := h s hs hreported hcontinues herrors
    exact ⟨hfitted, [(body s).forest], (List.append_nil _).symm,
      fun _ => List.cons_ne_nil _ _, List.forall_mem_singleton.2 hq⟩
  | case3 s hstop =>
    rw [State.repeatWhile_of_stop (Bool.eq_false_iff.2 hstop)]
    exact ⟨.stay hs hreported, [], rfl, fun hcontinues => absurd hcontinues hstop,
      List.forall_mem_nil _⟩

end Yields

/-! ## Clauses -/

/-- The level from which on a nonterminal adds operands. -/
def Nonterminal.level : Nonterminal → Level
  | expression => .or
  | negation => .not
  | unary => .unary

/-- A step that adds exactly one operand of at least the given rank. -/
abbrev YieldsOperand (rank : Nat) (step : Parse) : Prop :=
  Yields Lookahead.any step fun f => ∃ t, f = [t] ∧ t.IsOperand rank

theorem YieldsOperand.mono {rank rank' : Nat} {step : Parse} (h : YieldsOperand rank step)
    (hle : rank' ≤ rank) : YieldsOperand rank' step :=
  h.post fun _ ⟨t, hf, ht⟩ => ⟨t, hf, ht.mono hle⟩

/-- **Nonterminals that each add one operand** of their level. -/
structure YieldOperands (goals : Nat → Nonterminal → Parse) : Prop where
  steady : ∀ depth goal, Parse.Steady (goals depth goal)
  operand : ∀ depth goal, YieldsOperand goal.level.rank (goals depth goal)

/-- **Steps whose nodes fit if nothing is reported.** The nodes of clauses keep that,
whatever is in them. -/
theorem Fitted.stepInvariant : StepInvariant NodeKind.IsClause fun s out =>
    (∃ taken, Took taken s out) ∧ (s.input.Lawful → s.endReported = false →
      Forest.errors out.forest = [] → Fitted out) where
  lawful := fun ⟨⟨_, htook⟩, _⟩ hs => htook.lawful hs
  stay := fun s => ⟨Took.stepInvariant.stay s, fun hs hreported _ => .stay hs hreported⟩
  andThen := fun ⟨htook, hfirst⟩ ⟨htook', hsecond⟩ =>
    ⟨Took.stepInvariant.andThen htook htook', fun hs hreported herrors => by
      obtain ⟨herrors₁, herrors₂⟩ := Forest.errors_append_eq_nil.1 herrors
      have hfitted := hfirst hs hreported herrors₁
      exact hfitted.append (hsecond hfitted.lawful hfitted.reported herrors₂)⟩
  wrap := fun ⟨htook, hbody⟩ kind hkind =>
    ⟨Took.stepInvariant.wrap htook kind trivial, fun hs hreported herrors => by
      rw [Outcome.wrap, Forest.errors_node] at herrors
      exact (hbody hs hreported herrors).wrap (hkind.fits _)⟩
  shift := fun s hs =>
    ⟨Took.stepInvariant.shift s hs, fun hs hreported _ => .shift hs hreported⟩
  missing := fun s announced what hs => ⟨Took.stepInvariant.missing s announced what hs,
    fun _ hreported herrors => absurd herrors (State.errors_missing hreported announced what)⟩
  expecting := fun s message hs =>
    ⟨Took.stepInvariant.expecting s message hs, fun _ hreported herrors =>
      absurd herrors (State.errors_expecting hreported message)⟩
  recover := fun s announced message sync hs =>
    ⟨Took.stepInvariant.recover s announced message sync hs, fun _ hreported herrors =>
      absurd herrors (State.errors_recover hreported announced message sync)⟩
  cutOff := fun s hs => ⟨Took.stepInvariant.cutOff s hs, fun _ hreported herrors =>
    absurd herrors (State.errors_cutOff hreported)⟩

namespace Rule

/-- Where no operand is found, that is reported. -/
theorem errors_missingExpression {goals : Nat → Nonterminal → Parse} {depth : Nat} {s : State}
    (hreported : s.endReported = false) :
    Forest.errors (missingExpression.run goals depth s).forest ≠ [] := by
  rw [missingExpression, branch, run_look]
  split
  · exact State.errors_missing hreported _ _
  · exact State.errors_andThen_ne_nil (State.errors_recover hreported _ _ _) _

end Rule

namespace YieldOperands

open NodeKind Rule

variable {goals : Nat → Nonterminal → Parse} {depth : Nat} {P : Lookahead → Prop}

theorem clause (h : YieldOperands goals) {r : Rule} (hr : r.Makes IsClause) :
    Yields P (r.run goals depth) fun _ => True := by
  intro s hs hreported _ herrors
  refine ⟨(Fitted.stepInvariant.run (fun depth goal s' hs' => ?_) depth hr s hs).2 hs hreported
    herrors, trivial⟩
  exact ⟨h.steady depth goal s' hs', fun hs' hreported' herrors' =>
    (h.operand depth goal s' hs' hreported' trivial herrors').1⟩

/-- The node of a clause that is an expression without operators. -/
theorem primaryNode (h : YieldOperands goals) {kind : NodeKind} {body : Rule}
    (hr : (node kind body).Makes IsClause) (hkind : kind.isPrimary = true) :
    YieldsOperand 11 ((node kind body).run goals depth) := fun s hs hreported hv herrors =>
  ⟨(h.clause hr s hs hreported hv herrors).1, _, rfl, .inr (.inl ⟨kind, _, rfl, hkind⟩)⟩

theorem parenthesized (h : YieldOperands goals) :
    YieldsOperand 11 (parenthesized.run goals depth) := by
  intro s hs hreported hv herrors
  rw [Rule.parenthesized, branch, run_look] at herrors ⊢
  split at herrors
  · next hselect =>
    rw [if_pos hselect]
    exact h.primaryNode makes_subquery rfl s hs hreported hv herrors
  · next hselect =>
    rw [if_neg hselect]
    exact h.primaryNode (by simp [IsClause]) rfl s hs hreported hv herrors

/-- **An expression without operators.** -/
theorem primary (h : YieldOperands goals) : YieldsOperand 11 (primary.run goals depth) := by
  intro s hs hreported hv herrors
  rw [Rule.primary, run_look] at herrors ⊢
  dsimp only at herrors ⊢
  split_ifs at herrors ⊢ with hparen hcase hexists hcast hraise hname hcall hliteral
  · exact h.parenthesized s hs hreported hv herrors
  · exact h.primaryNode makes_caseExpr rfl s hs hreported hv herrors
  · exact h.primaryNode makes_existsTest rfl s hs hreported hv herrors
  · exact h.primaryNode makes_cast rfl s hs hreported hv herrors
  · exact h.primaryNode makes_raise rfl s hs hreported hv herrors
  · exact h.primaryNode makes_functionCall rfl s hs hreported hv herrors
  · exact h.primaryNode makes_columnReference rfl s hs hreported hv herrors
  · have hshift := Yields.shift (p := (·.isLiteral = true)) fun _ h =>
      (TokenKind.startsOperand_of_isLiteral h).1
    obtain ⟨hfitted, t, hf, ht⟩ := hshift s hs hreported hliteral herrors
    exact ⟨hfitted, t, hf, .inl ht⟩
  · exact absurd herrors (errors_missingExpression hreported)

/-! ## Levels -/

theorem nested (h : YieldOperands goals) (goal : Nonterminal) :
    YieldsOperand goal.level.rank ((nested goal).run goals depth) := by
  rw [Rule.run]
  split
  · exact h.operand _ goal
  · exact .of_errors fun _ => State.errors_cutOff

/-- A prefix operator and its operand. -/
theorem leadingOperator (h : YieldOperands goals) (goal : Nonterminal) {p : TokenKind → Prop}
    (hp : ∀ kind, p kind → kind.isTakeable = true)
    (hfits : ∀ operator operand, operator.IsToken p → operand.IsOperand goal.level.rank →
      goal.level.nodeKind.Fits [operator, operand]) :
    Yields (fun v => p v.current)
      ((node goal.level.nodeKind (all [shift, .nested goal])).run goals depth)
      fun f => ∃ t, f = [t] ∧ t.IsOperand goal.level.rank := by
  have hnested : YieldsOperand goal.level.rank ((Rule.nested goal).run goals depth) := h.nested goal
  have hpair := (Yields.shift hp).seq (hnested.seq .stay)
  refine (hpair.wrap goal.level.nodeKind ?_).post ?_
  · rintro _ ⟨_, _, rfl, ⟨operator, rfl, hoperator⟩, _, _, rfl, ⟨operand, rfl, hoperand⟩, rfl⟩
    exact hfits operator operand hoperator hoperand
  · rintro _ ⟨g, rfl⟩
    exact ⟨_, rfl, .inr (.inr ⟨goal.level, g, rfl, Nat.le_refl _⟩)⟩

theorem unary (h : YieldOperands goals) :
    YieldsOperand Level.unary.rank (unary.run goals depth) := by
  intro s hs hreported hv herrors
  rw [Rule.unary, branch, run_look] at herrors ⊢
  split at herrors
  · next hunary =>
    rw [if_pos hunary]
    exact h.leadingOperator .unary (p := (·.isUnaryOperator = true))
      (fun _ hkind => (TokenKind.opensOperand_of_isUnaryOperator hkind).1)
      (fun _ _ hoperator hoperand => ⟨_, _, rfl, hoperator, hoperand⟩) s hs hreported hunary herrors
  · next hunary =>
    rw [if_neg hunary]
    exact h.primary.mono (by decide) s hs hreported hv herrors

/-- **An operand with links behind it**, or alone. -/
theorem chain (level : Level) {operand link : Rule} {continues : Lookahead → Bool} {rank : Nat}
    {Q : Forest → Prop} (hrank : level.rank ≤ rank)
    (hoperand : YieldsOperand rank (operand.run goals depth))
    (hlink : Yields (fun v => continues v = true) (link.run goals depth) Q)
    (hfits : ∀ t links, t.IsOperand rank → links ≠ [] → (∀ link ∈ links, Q link) →
      level.nodeKind.Fits (t :: links.flatten)) :
    YieldsOperand level.rank ((chain level.nodeKind operand continues link).run goals depth) := by
  intro s hs hreported hv herrors
  cases hcontinues : continues (operand.run goals depth s).state.lookahead with
  | false =>
    rw [run_chain_of_stop hcontinues] at herrors ⊢
    obtain ⟨hfitted, t, hforest, ht⟩ := hoperand s hs hreported hv herrors
    exact ⟨hfitted, t, hforest, ht.mono hrank⟩
  | true =>
    rw [run_chain_of_continues hcontinues] at herrors ⊢
    rw [Outcome.wrap, Forest.errors_node] at herrors
    obtain ⟨herrors₁, herrors₂⟩ := Forest.errors_append_eq_nil.1 herrors
    obtain ⟨hfitted, t, hforest, ht⟩ := hoperand s hs hreported hv herrors₁
    obtain ⟨hfitted', links, hlinks, hne, hall⟩ :=
      hlink.repeatWhile hfitted.lawful hfitted.reported herrors₂
    refine ⟨(hfitted.andThen hfitted').wrap ?_, _, rfl,
      .inr (.inr ⟨level, _, rfl, Nat.le_refl _⟩)⟩
    rw [Outcome.andThen, hforest, hlinks]
    exact hfits t links ht (hne hcontinues) hall

theorem binary {level : Level} {operand : Rule}
    (hoperand : YieldsOperand (level.rank + 1) (operand.run goals depth))
    (hfits : ∀ f, Alternates level f → level.nodeKind.Fits f) :
    YieldsOperand level.rank ((binary level operand).run goals depth) := by
  have hshift := Yields.shift (p := (·.operatorLevel? = some level)) fun _ hkind =>
    (TokenKind.opensOperand_of_operatorLevel hkind).1
  have hlink := (hshift.seq (hoperand.seq .stay)).pre fun v hv => beq_iff_eq.1 hv
  refine chain level (Nat.le_succ _) hoperand hlink fun t links ht hne hlinks => hfits _ ?_
  refine .of_links ht hne fun link hmem => ?_
  obtain ⟨_, _, rfl, ⟨operator, rfl, hoperator⟩, _, _, rfl, ⟨u, rfl, hu⟩, rfl⟩ := hlinks link hmem
  exact ⟨operator, u, rfl, hoperator, hu⟩

theorem collationName : Yields Lookahead.any (collationName.run goals depth) fun f =>
    ∃ t, f = [t] ∧ t.IsToken fun kind => kind.isName = true ∨ kind = .string := by
  intro s hs hreported hv herrors
  have hshift := Yields.shift (p := fun kind => kind.isName = true ∨ kind = .string)
    fun kind hkind => by
      rcases hkind with hname | rfl
      · exact isTakeable_of_isName (v := ⟨kind, kind, kind, ""⟩) hname
      · rfl
  rw [Rule.collationName, branch, run_look] at herrors ⊢
  split at herrors
  · next hstring =>
    rw [if_pos hstring]
    exact hshift s hs hreported (.inr (beq_iff_eq.1 hstring)) herrors
  · next hstring =>
    rw [if_neg hstring]
    rw [nameToken, branch, run_look] at herrors ⊢
    split at herrors
    · next hname =>
      rw [if_pos hname]
      exact hshift s hs hreported (.inl hname) herrors
    · exact absurd herrors (State.errors_missing hreported _ _)

theorem collate (h : YieldOperands goals) :
    YieldsOperand Level.collate.rank (collate.run goals depth) := by
  have hshift := Yields.shift (p := (· = .keyword .COLLATE)) fun _ hkind => by rw [hkind]; rfl
  have hname : Yields Lookahead.any (Rule.collationName.run goals depth) _ := collationName
  have hlink := (hshift.seq (hname.seq .stay)).pre fun v hv => beq_iff_eq.1 hv
  refine chain .collate (by decide) h.unary hlink fun t links ht hne hlinks =>
    ⟨t, links, rfl, ht, hne, fun link hmem => ?_⟩
  obtain ⟨_, _, rfl, ⟨operator, rfl, hoperator⟩, _, _, rfl, ⟨name, rfl, hname⟩, rfl⟩ :=
    hlinks link hmem
  exact ⟨operator, name, rfl, hoperator, hname⟩

theorem comparison (h : YieldOperands goals) :
    YieldsOperand Level.comparison.rank (comparison.run goals depth) :=
  binary (binary (binary (binary (binary h.collate
    fun _ hf => hf) fun _ hf => hf) fun _ hf => hf) fun _ hf => hf) fun _ hf => hf

/-- A rule of which the nodes fit, whatever it adds. -/
abbrev Orderly (goals : Nat → Nonterminal → Parse) (depth : Nat) (r : Rule) : Prop :=
  Yields Lookahead.any (r.run goals depth) fun _ => True

theorem orderly_nil : Orderly goals depth (all []) := Yields.stay.post fun _ _ => trivial

theorem Orderly.cons {r : Rule} {rules : List Rule} (h : Orderly goals depth r)
    (h' : Orderly goals depth (all rules)) : Orderly goals depth (all (r :: rules)) :=
  (h.seq h').post fun _ _ => trivial

theorem Orderly.onlyIf {r : Rule} (h : Orderly goals depth r) (test : Lookahead → Bool) :
    Orderly goals depth (onlyIf test r) := by
  intro s hs hreported hv herrors
  rw [Rule.onlyIf, branch, run_look] at herrors ⊢
  split at herrors
  · next htest =>
    rw [if_pos htest]
    exact h s hs hreported hv herrors
  · next htest =>
    rw [if_neg htest]
    exact orderly_nil s hs hreported hv herrors

/-- **The operators of the equality level** with what stands behind them. -/
theorem equalityLink (h : YieldOperands goals) (v : Lookahead) :
    Orderly goals depth ((equalityLink? v).getD done) :=
  equalityLink_induct orderly_nil Orderly.cons (fun test hr => Orderly.onlyIf hr test)
    (h.clause trivial) (fun word => h.clause (makes_expectKeyword word)) (h.clause makes_inTarget)
    (h.comparison.post fun _ _ => trivial) v

theorem equality (h : YieldOperands goals) :
    YieldsOperand Level.equality.rank (equality.run goals depth) :=
  chain .equality (by decide) h.comparison (Q := fun _ => True)
    (fun s hs hreported _ herrors => h.equalityLink s.lookahead s hs hreported trivial herrors)
    fun t _ ht _ _ => ⟨t, _, rfl, ht⟩

theorem negation (h : YieldOperands goals) :
    YieldsOperand Level.not.rank (negation.run goals depth) := by
  intro s hs hreported hv herrors
  rw [Rule.negation, branch, run_look] at herrors ⊢
  split at herrors
  · next hnot =>
    rw [if_pos hnot]
    have hkind := beq_iff_eq.1 ((Bool.and_eq_true _ _).mp hnot).1
    exact h.leadingOperator .negation (p := (· = .keyword .NOT)) (fun _ hkind => by rw [hkind]; rfl)
      (fun _ _ hoperator hoperand => ⟨_, _, rfl, hoperator, hoperand⟩) s hs hreported hkind herrors
  · next hnot =>
    rw [if_neg hnot]
    exact h.equality.mono (by decide) s hs hreported hv herrors

/-- **The rule of a nonterminal adds one operand** if nonterminals do. -/
theorem ofNonterminal (h : YieldOperands goals) (goal : Nonterminal) :
    YieldsOperand goal.level.rank ((ofNonterminal goal).run goals depth) := by
  cases goal with
  | expression => exact binary (binary h.negation fun _ hf => hf) fun _ hf => hf
  | negation => exact h.negation
  | unary => exact h.unary

end YieldOperands

/-! ## Nonterminals and statements -/

/-- **Nonterminals add one operand.** -/
theorem yieldOperands_parse : YieldOperands Nonterminal.parse where
  steady := Took.stepInvariant.nonterminal fun _ => Rule.makes_any _
  operand := by
    intro depth goal s
    induction depth, goal, s using Nonterminal.parse.induct with
    | case1 depth goal s ih =>
      intro hs hreported _ herrors
      -- without progress a nonterminal may as well report something
      set goals : Nat → Nonterminal → Parse := fun depth' goal' s' =>
        if goal'.weight s' < goal.weight s then goal'.parse depth' s' else s'.missing true ""
        with hgoals
      have hyield : YieldOperands goals := by
        refine ⟨fun depth' goal' s' hs' => ?_,
          fun depth' goal' s' hs' hreported' hv' herrors' => ?_⟩
        · rw [hgoals]
          dsimp only
          split
          · exact Took.stepInvariant.nonterminal (fun _ => Rule.makes_any _) depth' goal' s' hs'
          · exact Took.stepInvariant.missing s' _ _ hs'
        · rw [hgoals] at herrors' ⊢
          dsimp only at herrors' ⊢
          split at herrors'
          · next hless =>
            rw [if_pos hless]
            exact ih depth' goal' s' hless hs' hreported' hv' herrors'
          · exact absurd herrors' (State.errors_missing hreported' _ _)
      have hparse : goal.parse depth s = (Rule.ofNonterminal goal).run goals depth s :=
        Nonterminal.parse_eq_run hs fun depth' goal' s' _ hless => if_pos hless
      rw [hparse] at herrors ⊢
      exact hyield.ofNonterminal goal s hs hreported trivial herrors

/-- The nodes of a rule of the grammar fit if it reports nothing. -/
theorem yields_rule {rule : Rule} (hrule : rule.Makes NodeKind.IsClause) :
    Yields Lookahead.any rule.parse fun _ => True := yieldOperands_parse.clause hrule

namespace State

/-- Nothing is reported at the end of a statement if nothing is left over. -/
theorem yields_finish : Yields Lookahead.any finish fun _ => True := by
  intro s hs hreported _ herrors
  rw [finish] at herrors ⊢
  split at herrors
  · next hend =>
    rw [if_pos hend]
    exact ⟨⟨hs.advance, hreported, List.forall_mem_nil _⟩, trivial⟩
  · exact absurd herrors (errors_andThen_ne_nil (errors_recover hreported _ _ _) _)

theorem yields_body (explained : Bool) : Yields Lookahead.any (body explained) fun _ => True := by
  intro s hs hreported hv herrors
  rw [body] at herrors ⊢
  cases hrule : Rule.ofStatementKeyword? s.current.kind with
  | some rule =>
    rw [hrule] at herrors
    have h := (yields_rule (Rule.makes_ofStatementKeyword hrule)).seq yields_finish
    exact (h s hs hreported hv herrors).imp_right fun _ => trivial
  | none =>
    rw [hrule] at herrors
    dsimp only at herrors ⊢
    split at herrors
    · next hend =>
      rw [if_pos hend]
      cases explained with
      | false =>
        exact ((Yields.stay.seq yields_finish) s hs hreported hv herrors).imp_right fun _ => trivial
      | true =>
        have hadded : Forest.errors (add (.missing "missing statement") s).forest ≠ [] :=
          List.cons_ne_nil _ _
        exact absurd herrors (errors_andThen_ne_nil hadded _)
    · exact absurd herrors (errors_andThen_ne_nil (errors_recover hreported _ _ _) _)

/-- **The nodes of a statement fit** if it reports nothing. -/
theorem yields_statement : Yields Lookahead.any statement fun _ => True :=
  fun s hs hreported hv herrors =>
    (((yields_rule Rule.makes_explain).seq (yields_body (s.lookahead.isKeyword .EXPLAIN)))
      s hs hreported hv herrors).imp_right fun _ => trivial

end State

/-- **Accepted statements bind as their operators do.** Whatever the source is, at each
node of a statement without errors: between operands of tighter levels stand the
operators of the node's own level, a prefix operator has one operand, which binds at
least as tightly, behind an operand the collations are named, and before the tests of
the equality level there is an operand of a tighter one. -/
theorem parse_binds (source : String) (statement : Statement) (hmem : statement ∈ parse source)
    (haccepted : statement.hasErrors = false) :
    ∀ n ∈ statement.tree.nodes, n.1.Fits n.2 := by
  obtain ⟨parsed, hparsed, rfl⟩ := List.mem_map.1 hmem
  obtain ⟨input, hlawful, -, -, rfl⟩ :=
    TokenStream.exists_of_mem_parseAll (TokenStream.lawful_ofSource source) hparsed
  have herrors : Forest.errors (State.start input).statement.forest = [] := by
    rw [Statement.hasErrors, Tree.hasErrors, Bool.not_eq_false', List.isEmpty_iff] at haccepted
    exact haccepted
  obtain ⟨hfitted, -⟩ := State.yields_statement (State.start input) hlawful rfl trivial herrors
  intro n hn
  rcases List.mem_cons.1 hn with rfl | hn
  · exact trivial
  · exact hfitted.fits n hn

/-- The sum in `SELECT a OR NOT -b + c COLLATE d` has an operand on each side of its
operator, which bind more tightly. -/
theorem parse_binds_select :
    ∃ statement ∈ parse "SELECT a OR NOT -b + c COLLATE d", ∃ n ∈ statement.tree.nodes,
      n.1 = .additive ∧ n.2.length = 3 ∧ n.1.Fits n.2 := by
  have hall : (parse "SELECT a OR NOT -b + c COLLATE d").any (fun statement =>
      !statement.hasErrors && statement.tree.nodes.any fun n =>
        n.1 == .additive && n.2.length == 3) = true := by
    decide +kernel
  obtain ⟨statement, hmem, hstatement⟩ := List.any_eq_true.1 hall
  rw [Bool.and_eq_true, Bool.not_eq_true'] at hstatement
  obtain ⟨n, hn, hsum⟩ := List.any_eq_true.1 hstatement.2
  rw [Bool.and_eq_true, beq_iff_eq, beq_iff_eq] at hsum
  exact ⟨statement, hmem, n, hn, hsum.1, hsum.2,
    parse_binds _ statement hmem hstatement.1 n hn⟩

end TolerantSql
