import TolerantSql.Proofs.GivenTokens
import TolerantSql.Proofs.WrappedQueries

/-!
# Where nesting is cut off

Parentheses, prefix operators and `NOT` each take their operand one level deeper, and all
of them count the same levels. On the last level an operand is given up: an error says so,
and its tokens are skipped up to the parenthesis or comma that belongs to what is still
open around it. What is open is then closed as if nothing had happened.

Two facts carry this. Skipping takes balanced tokens as a whole, however deep they are
(`State.balancing_of_balanced`), so it ends where the operand does. And an operand that is
followed by what ends an expression is found whether or not it is cut off inside
(`exists_runs_wrapped`), by induction on its wrappers: the token behind the operand is the
same in both cases. `Encloses` describes what is found; the errors and the parentheses of a
query are read off it.
-/

namespace TolerantSql

open Rule

/-! ## Balanced tokens -/

/-- The kinds of the tokens to come. -/
def State.kinds (s : State) : List TokenKind := s.input.pending.map (·.token.kind)

/-- **Tokens that close the parentheses they open** and hold no comma and no semicolon. -/
inductive Balanced : List TokenKind → Prop where
  | atom {kind : TokenKind} (h : kind ∉ [.leftParen, .rightParen, .comma, .semicolon]) :
    Balanced [kind]
  | append {a b : List TokenKind} (ha : Balanced a) (hb : Balanced b) : Balanced (a ++ b)
  | parens {a : List TokenKind} (h : Balanced a) : Balanced (.leftParen :: (a ++ [.rightParen]))

namespace State

variable {s : State} {kind : TokenKind} {front behind : List TokenKind}

theorem kinds_cons (h : s.kinds = kind :: behind) :
    s.current.kind = kind ∧ s.advance.kinds = behind := by
  obtain ⟨l, rest, hpending, hl, hrest⟩ := List.map_eq_cons_iff.1 h
  have hadvance : s.advance.input = ⟨rest, s.input.last⟩ := TokenStream.advance_cons hpending
  refine ⟨?_, ?_⟩
  · rw [current, TokenStream.current_cons hpending, hl]
  · rw [kinds, hadvance, hrest]

/-- Skips with so many parentheses open. -/
def balancing (depth : Nat) : Parse := fun s => takeBalanced.go depth s.input.pending s

section Balancing

variable {l : Lexeme} {rest : List Lexeme} (hpending : s.input.pending = l :: rest)

include hpending

/-- Skipping goes on behind a token. -/
theorem take_balancing (depth : Nat) :
    s.take.andThen (balancing depth) = s.take.andThen (takeBalanced.go depth rest) := by
  rw [Outcome.andThen, Outcome.andThen, balancing, pending_take hpending]

theorem balancing_leftParen (hl : l.token.kind = .leftParen) (depth : Nat) :
    s.balancing depth = s.take.andThen (balancing (depth + 1)) := by
  rw [take_balancing hpending, balancing, hpending, takeBalanced.go, hl]

theorem balancing_rightParen (hl : l.token.kind = .rightParen) (depth : Nat) :
    s.balancing (depth + 1) = s.take.andThen (balancing depth) := by
  rw [take_balancing hpending, balancing, hpending, takeBalanced.go, hl]
  exact if_neg (Nat.succ_ne_zero depth)

/-- With nothing open, skipping ends at what belongs to the outside. -/
theorem balancing_stop (hl : l.token.kind ∈ [.comma, .rightParen, .semicolon]) :
    s.balancing 0 = s.stay := by
  rw [balancing, hpending, takeBalanced.go]
  simp only [List.mem_cons, List.not_mem_nil, or_false] at hl
  rcases hl with hl | hl | hl <;> rw [hl] <;> rfl

theorem balancing_atom (hl : l.token.kind ∉ [.leftParen, .rightParen, .comma, .semicolon])
    (depth : Nat) : s.balancing depth = s.take.andThen (balancing depth) := by
  rw [take_balancing hpending, balancing, hpending, takeBalanced.go]
  simp only [List.mem_cons, List.not_mem_nil, or_false, not_or] at hl
  obtain ⟨hleft, hright, hcomma, hsemicolon⟩ := hl
  split
  · next h => exact absurd h hsemicolon
  · next h => exact absurd h hcomma
  · next h => exact absurd h hright
  · next h => exact absurd h hleft
  · rfl

end Balancing

/-- **Skipping takes balanced tokens as a whole**, whatever is open around them. -/
theorem balancing_of_balanced (h : Balanced front) (hkinds : s.kinds = front ++ behind) :
    ∃ (ts : List Token) (s' : State), ts ≠ [] ∧ s'.kinds = behind ∧ ∀ depth,
      s.balancing depth = Outcome.andThen ⟨ts.map .token, s'⟩ (balancing depth) := by
  induction h generalizing s behind with
  | atom h =>
    obtain ⟨l, rest, hpending, rfl, -⟩ := List.map_eq_cons_iff.1 hkinds
    exact ⟨[s.current], s.advance, List.cons_ne_nil _ _, (kinds_cons hkinds).2,
      balancing_atom hpending h⟩
  | append _ _ iha ihb =>
    rw [List.append_assoc] at hkinds
    obtain ⟨ts, s₁, hne, hkinds₁, hts⟩ := iha hkinds
    obtain ⟨us, s₂, -, hkinds₂, hus⟩ := ihb hkinds₁
    refine ⟨ts ++ us, s₂, by simp [hne], hkinds₂, fun depth => ?_⟩
    rw [hts, Outcome.andThen, hus]
    simp [Outcome.andThen]
  | parens _ ih =>
    rw [List.cons_append, List.append_assoc] at hkinds
    obtain ⟨l, rest, hpending, hl, -⟩ := List.map_eq_cons_iff.1 hkinds
    obtain ⟨ts, s₁, -, hkinds₁, hts⟩ := ih (kinds_cons hkinds).2
    obtain ⟨l₁, rest₁, hpending₁, hl₁, -⟩ := List.map_eq_cons_iff.1 hkinds₁
    refine ⟨s.current :: (ts ++ [s₁.current]), s₁.advance, List.cons_ne_nil _ _,
      (kinds_cons hkinds₁).2, fun depth => ?_⟩
    rw [balancing_leftParen hpending hl]
    simp [Outcome.andThen, take, hts, balancing_rightParen hpending₁ hl₁]

/-- **An operand that is given up** is reported and skipped up to what ends it. -/
theorem cutOff_of_balanced (hs : s.input.Lawful) (h : Balanced front)
    (hkinds : s.kinds = front ++ kind :: behind)
    (hkind : kind ∈ [.comma, .rightParen, .semicolon]) :
    ∃ (ts : List Token) (s' : State), s'.kinds = kind :: behind
      ∧ s.cutOff = ⟨[.error (.expecting "expression nested too deeply"),
        .node .skipped (ts.map .token)], s'⟩ := by
  have hend : s.atEof = false := by
    rw [atEof_eq hs, ← List.isEmpty_map (f := fun l : Lexeme => l.token.kind), ← kinds, hkinds]
    simp
  obtain ⟨reported, hexpecting, hreported⟩ : ∃ reported,
      s.expecting "expression nested too deeply"
        = ⟨[.error (.expecting "expression nested too deeply")], reported⟩
      ∧ reported.kinds = s.kinds := by
    rw [expecting, hend]
    exact ⟨_, rfl, rfl⟩
  obtain ⟨ts, s', hne, hkinds', hts⟩ := balancing_of_balanced h (hreported.trans hkinds)
  have hstay : s'.balancing 0 = s'.stay := by
    obtain ⟨l, rest, hpending, rfl, -⟩ := List.map_eq_cons_iff.1 hkinds'
    exact balancing_stop hpending hkind
  have hskipped : reported.takeBalanced = ⟨ts.map .token, s'⟩ := by
    rw [show reported.takeBalanced = reported.balancing 0 from rfl, hts, Outcome.andThen, hstay]
    simp [stay]
  refine ⟨ts, s'.logging (.skippedNested (ts.map Tree.token).length s'.offset), hkinds', ?_⟩
  rw [cutOff, hexpecting, Outcome.andThen]
  simp only [hskipped]
  rw [if_neg (by simpa using hne)]
  rfl

end State

/-- On the last level an operand is given up. -/
theorem Rule.Runs.cutOff {depth : Nat} {goal : Nonterminal} {s s' : State} {f : Forest}
    (hdepth : maxDepth ≤ depth) (h : s.cutOff = ⟨f, s'⟩) :
    (Rule.nested goal).Runs depth s f s' := by
  rw [Runs, Rule.run, if_neg (Nat.not_lt.2 hdepth)]
  exact h

/-- A rule that leaves other tokens to come has added some. -/
theorem Rule.Runs.terminals_ne_nil {r : Rule} {depth : Nat} {s s' : State} {f : Forest}
    (h : r.Runs depth s f s') (hs : s.input.Lawful) (hkinds : s.kinds ≠ s'.kinds) :
    Forest.terminals f ≠ [] := by
  obtain ⟨taken, htook⟩ := h.took hs
  intro hnil
  obtain rfl : taken = [] := List.map_eq_nil_iff.1 (htook.terminals.symm.trans hnil)
  refine hkinds ?_
  rw [State.kinds, htook.pending]
  rfl

/-! ## Wrapped numbers -/

/-- The tokens of a number behind wrappers. -/
def wrappedKinds (w : List Wrapper) : List TokenKind :=
  w.map Wrapper.kind ++ .numeric :: List.replicate (w.count .paren) .rightParen

theorem wrappedKinds_append_ne (w : List Wrapper) (behind : List TokenKind) :
    wrappedKinds w ++ behind ≠ behind :=
  mt List.append_left_eq_self.1 (by simp [wrappedKinds])

/-- What closes a wrapper behind its operand. -/
def Wrapper.closing : Wrapper → List TokenKind
  | paren => [.rightParen]
  | plus | minus | tilde | not => []

theorem wrappedKinds_cons (x : Wrapper) (w : List Wrapper) :
    wrappedKinds (x :: w) = x.kind :: (wrappedKinds w ++ x.closing) := by
  cases x <;> simp [wrappedKinds, Wrapper.kind, Wrapper.closing, List.replicate_succ']

/-- Every parenthesis around a number is closed behind it. -/
theorem balanced_wrappedKinds (w : List Wrapper) : Balanced (wrappedKinds w) := by
  induction w with
  | nil => exact .atom (by decide)
  | cons x w ih =>
    rw [wrappedKinds_cons]
    cases x with
    | paren => exact .parens ih
    | _ =>
      rw [Wrapper.closing, List.append_nil]
      exact .append (.atom (by decide)) ih

/-- How tightly what begins with a wrapper binds. -/
def Wrapper.rank : Wrapper → Nat
  | paren => 11
  | plus | minus | tilde => Level.unary.rank
  | not => Level.not.rank

/-- What a wrapper and its operand come to. -/
def Wrapper.nodeKind : Wrapper → NodeKind
  | paren => .parenthesized
  | plus | minus | tilde => .unary
  | not => .not

theorem Wrapper.nodeKind_ne {x : Wrapper} (hx : x ≠ .paren) : x.nodeKind ≠ .parenthesized := by
  cases x <;> first | decide | exact absurd rfl hx

/-- How tightly a wrapped number binds. -/
def wrappedRank (w : List Wrapper) : Nat := (w.head?.map Wrapper.rank).getD 11

/-- The rank of the operands that a nonterminal stands for. -/
def Nonterminal.operandRank : Nonterminal → Nat
  | expression => 0
  | negation => Level.not.rank
  | unary => Level.unary.rank

theorem ofRank_operandRank (goal : Nonterminal) : ofRank goal.operandRank = ofNonterminal goal := by
  cases goal <;> rfl

/-- What a wrapped number begins with. -/
theorem entersAt_wrappedKinds {s : State} {behind : List TokenKind} (w : List Wrapper)
    (h : s.kinds = wrappedKinds w ++ behind) : EntersAt (wrappedRank w) s.lookahead := by
  have hfront : s.kinds
      = (w.head?.map Wrapper.kind).getD .numeric :: ((wrappedKinds w).tail ++ behind) := by
    rw [h]
    cases w <;> rfl
  rw [State.lookahead_eq (State.kinds_cons hfront).1]
  match w with
  | [] | .paren :: _ => exact ⟨rfl, nofun, fun _ => nofun, fun _ => rfl, rfl⟩
  | .plus :: _ | .minus :: _ | .tilde :: _ =>
    show EntersAt Level.unary.rank _
    exact ⟨rfl, nofun, fun _ => nofun, fun h => absurd h (by decide), rfl⟩
  | .not :: _ =>
    show EntersAt Level.not.rank _
    exact ⟨rfl, nofun, fun h => absurd h (by decide), fun h => absurd h (by decide), rfl⟩

/-- **What wrapped numbers come to** when so many levels are left. -/
inductive Encloses : (levels : Nat) → List Wrapper → Forest → Prop where
  | cutOff (w : List Wrapper) (ts : List Token) :
    Encloses 0 w [.error (.expecting "expression nested too deeply"),
      .node .skipped (ts.map .token)]
  | number (levels : Nat) (t : Token) : Encloses (levels + 1) [] [.token t]
  | paren {levels : Nat} {w : List Wrapper} {f : Forest} {lp rp : Token}
    (hlp : lp.kind = .leftParen) (hrp : rp.kind = .rightParen) (h : Encloses levels w f) :
    Encloses (levels + 1) (.paren :: w) [.node .parenthesized (.token lp :: (f ++ [.token rp]))]
  | operator {levels : Nat} {w : List Wrapper} {f : Forest} {x : Wrapper} (hx : x ≠ .paren)
    (t : Token) (h : Encloses levels w f) :
    Encloses (levels + 1) (x :: w) [.node x.nodeKind (.token t :: f)]

section Runs

variable {depth : Nat} {s : State} {kind : TokenKind} {behind : List TokenKind}

/-- What ends a wrapped number. -/
theorem stopsAt_of_kinds (h : s.kinds = kind :: behind)
    (hkind : kind ∈ [.comma, .rightParen, .semicolon]) :
    StopsAt 0 s.lookahead :=
  .of_kind (State.kinds_cons h).1
    ((by decide : [TokenKind.comma, .rightParen, .semicolon] ⊆ _) hkind)

/-- Every wrapped number can be negated. -/
theorem not_le_wrappedRank (w : List Wrapper) :
    Nonterminal.negation.operandRank ≤ wrappedRank w := by
  match w with
  | [] => decide
  | x :: _ =>
    show Level.not.rank ≤ x.rank
    cases x <;> decide

/-- What stands behind a prefix operator binds as tightly as one. -/
theorem unary_le_wrappedRank {x : Wrapper} {w : List Wrapper} (hx : x ∈ [.plus, .minus, .tilde])
    (hw : Wrapper.Fit (x :: w)) : Nonterminal.unary.operandRank ≤ wrappedRank w := by
  match w with
  | [] => decide
  | y :: _ =>
    have hy := (List.isChain_cons_cons.1 hw).1
    show Level.unary.rank ≤ y.rank
    cases y with
    | not => exact absurd hx (hy rfl)
    | _ => decide

/-- **An operand one level deeper**: it is given up on the last level, and otherwise is one
of the rank that is looked for. -/
theorem exists_runs_nested {w : List Wrapper} {goal : Nonterminal}
    (hgoal : goal.operandRank ≤ wrappedRank w) (hdepth : depth ≤ maxDepth)
    (hs : s.input.Lawful) (hkinds : s.kinds = wrappedKinds w ++ kind :: behind)
    (hkind : kind ∈ [.comma, .rightParen, .semicolon])
    (h : depth < maxDepth → ∃ f s', (ofRank (wrappedRank w)).Runs (depth + 1) s f s'
      ∧ s'.kinds = kind :: behind ∧ Encloses (maxDepth - (depth + 1) + 1) w f) :
    ∃ f s', (nested goal).Runs depth s f s' ∧ s'.kinds = kind :: behind
      ∧ Encloses (maxDepth - depth) w f := by
  rcases Nat.eq_or_lt_of_le hdepth with rfl | hlt
  · obtain ⟨ts, s', hkinds', hcutOff⟩ :=
      State.cutOff_of_balanced hs (balanced_wrappedKinds w) hkinds hkind
    refine ⟨_, s', .cutOff (Nat.le_refl _) hcutOff, hkinds', ?_⟩
    rw [Nat.sub_self]
    exact .cutOff w ts
  · obtain ⟨f, s', hruns, hkinds', hf⟩ := h hlt
    refine ⟨f, s', .nested hlt hs ?_, hkinds', ?_⟩
    · rw [← ofRank_operandRank]
      exact hruns.loosen_of_le (entersAt_wrappedKinds w hkinds) hgoal
        ((stopsAt_of_kinds hkinds' hkind).mono (Nat.zero_le _))
    · rwa [show maxDepth - depth = maxDepth - (depth + 1) + 1 by omega]

/-- **A wrapped number is found**, on whatever level it begins and whether or not it is cut
off inside. -/
theorem exists_runs_wrapped (w : List Wrapper) (hw : Wrapper.Fit w) (goal : Nonterminal)
    (hgoal : goal.operandRank ≤ wrappedRank w) (hdepth : depth ≤ maxDepth)
    (hs : s.input.Lawful) (hkinds : s.kinds = wrappedKinds w ++ kind :: behind)
    (hkind : kind ∈ [.comma, .rightParen, .semicolon]) :
    ∃ f s', (nested goal).Runs depth s f s' ∧ s'.kinds = kind :: behind
      ∧ Encloses (maxDepth - depth) w f := by
  induction w generalizing goal depth s kind behind with
  | nil =>
    refine exists_runs_nested hgoal hdepth hs hkinds hkind fun hlt => ?_
    obtain ⟨hnumber, hkinds'⟩ := State.kinds_cons hkinds
    have hfinds : (Part.operand 11).Finds 0 [.token s.current] :=
      .literal (by rw [hnumber]; rfl)
    have hruns := (hfinds (depth + 1) s s.advance hlt hs ⟨rfl, rfl⟩
      ((stopsAt_of_kinds hkinds' hkind).mono (Nat.zero_le _))).2
    exact ⟨_, s.advance, hruns, hkinds', .number _ _⟩
  | cons x w ih =>
    refine exists_runs_nested hgoal hdepth hs hkinds hkind fun hlt => ?_
    rw [wrappedKinds_cons, List.cons_append, List.append_assoc] at hkinds
    obtain ⟨hfirst, hkinds'⟩ := State.kinds_cons hkinds
    have henters := entersAt_wrappedKinds w hkinds'
    match x with
    | .paren =>
      obtain ⟨f, s', hruns, hclose, hf⟩ :=
        ih hw.of_cons .expression (Nat.zero_le _) hlt hs.advance hkinds' (by decide)
      obtain ⟨hrp, hbehind⟩ := State.kinds_cons hclose
      have henters' := henters.mono (Nat.zero_le _)
      have hterminals := hruns.terminals_ne_nil hs.advance (by
        rw [hkinds', hclose]
        exact wrappedKinds_append_ne w _)
      have hlist := hruns.expressionList_one hs.advance henters' hterminals hrp
      exact ⟨_, s'.advance, hlist.parenthesized rfl hfirst henters' rfl hrp, hbehind,
        .paren hfirst hrp hf⟩
    | .not =>
      obtain ⟨f, s', hruns, hbehind, hf⟩ :=
        ih hw.of_cons .negation (not_le_wrappedRank w) hlt hs.advance hkinds' hkind
      exact ⟨_, s', hruns.not rfl hfirst henters, hbehind, .operator (by decide) _ hf⟩
    | .plus | .minus | .tilde =>
      obtain ⟨f, s', hruns, hbehind, hf⟩ :=
        ih hw.of_cons .unary (unary_le_wrappedRank (by decide) hw) hlt hs.advance hkinds' hkind
      exact ⟨_, s', hruns.unary rfl (by rw [hfirst]; rfl), hbehind, .operator (by decide) _ hf⟩

end Runs

/-! ## What is read off a wrapped number -/

/-- **What stands in parentheses that are closed.** -/
def Forest.IsEnclosed (f : Forest) : Prop :=
  ∃ (lp rp : Token) (inside : Forest), f = .token lp :: (inside ++ [.token rp])
    ∧ lp.kind = .leftParen ∧ rp.kind = .rightParen

theorem Forest.nodes_tokens (ts : List Token) : Forest.nodes (ts.map .token) = [] :=
  nodes_eq_nil fun t ht => by
    obtain ⟨u, -, rfl⟩ := List.mem_map.1 ht
    exact ⟨.token u, rfl⟩

theorem Forest.errors_tokens (ts : List Token) : Forest.errors (ts.map .token) = [] := by
  induction ts with
  | nil => rfl
  | cons t ts ih => exact ih

namespace Encloses

variable {levels : Nat} {w : List Wrapper} {f : Forest}

/-- There is one error if the levels do not suffice, and none otherwise. -/
theorem errors_eq (h : Encloses levels w f) :
    Forest.errors f
      = if w.length < levels then [] else [.expecting "expression nested too deeply"] := by
  induction h with
  | cutOff w ts =>
    show _ :: Forest.errors [.node .skipped (ts.map .token)] = _
    rw [Forest.errors_node, Forest.errors_tokens]
    rfl
  | number levels t => rfl
  | @paren levels w f lp rp _ _ _ ih =>
    have herrors : Forest.errors (f ++ [.token rp]) = Forest.errors f := by
      simp [Forest.errors, Leaf.error?]
    rw [Forest.errors_node, Forest.errors_token, herrors, ih]
    simp
  | operator _ t _ ih =>
    rw [Forest.errors_node, Forest.errors_token, ih]
    simp

/-- What is opened before the cut-off is closed. -/
theorem isEnclosed (h : Encloses levels w f) :
    ∀ n ∈ Forest.nodes f, n.1 = .parenthesized → n.2.IsEnclosed := by
  induction h with
  | cutOff w ts => simp [Forest.nodes_tokens]
  | number levels t => nofun
  | @paren levels w f lp rp hlp hrp _ ih =>
    have hnodes : Forest.nodes [.node .parenthesized (.token lp :: (f ++ [.token rp]))]
        = (.parenthesized, .token lp :: (f ++ [.token rp])) :: Forest.nodes f := by simp
    rw [hnodes]
    exact List.forall_mem_cons.2 ⟨fun _ => ⟨lp, rp, f, rfl, hlp, hrp⟩, ih⟩
  | @operator levels w f x hx t _ ih =>
    have hnodes : Forest.nodes [.node x.nodeKind (.token t :: f)]
        = (x.nodeKind, .token t :: f) :: Forest.nodes f := by simp
    rw [hnodes]
    exact List.forall_mem_cons.2 ⟨fun hkind => absurd hkind (Wrapper.nodeKind_ne hx), ih⟩

/-- As many parentheses are opened as there are before the cut-off. -/
theorem count_nodes (h : Encloses levels w f) :
    (Forest.nodes f).countP (·.1 == .parenthesized) = (w.take levels).count .paren := by
  induction h with
  | cutOff w ts => simp [Forest.nodes_tokens]
  | number levels t => rfl
  | paren _ _ _ ih => simp [ih]
  | operator hx t _ ih => simp [ih, hx, Wrapper.nodeKind_ne hx]

end Encloses

/-! ## Queries -/

namespace TokenStream

/-- A source without comments has none before its end. -/
theorem comments_last_ofSource {source : String}
    (h : ∀ t ∈ tokenize source, t.kind.isComment = false) :
    (ofSource source).last.comments = [] := by
  have hcomments := (groups_ofSource source).flatMap_comments
  rw [List.filter_eq_nil_iff.2 fun t ht => by rw [h t ht]; exact Bool.false_ne_true,
    lexemes, List.flatMap_append, List.append_eq_nil_iff] at hcomments
  simpa using hcomments.2

/-- **A source with nothing behind its first semicolon** has one statement, which holds all
of its tokens. -/
theorem parse_of_statement {source : String} {front : Forest} {semi : Token} {s' : State}
    (hcomments : ∀ t ∈ tokenize source, t.kind.isComment = false)
    (h : (State.start (ofSource source)).statement = ⟨front ++ [.token semi], s'⟩)
    (hsemi : semi.kind = .semicolon) (hend : s'.kinds = []) :
    ∃ statement, parse source = [statement] ∧ statement.children = front ++ [.token semi]
      ∧ statement.tree.terminals = (tokenize source).filter Token.isSignificant := by
  have hlawful := lawful_ofSource source
  have hstatement : (ofSource source).parseStatement.statement
      = ⟨front ++ [.token semi], s'.comments⟩ := by
    show Statement.mk _ _ = _
    rw [h]
  have hrest : (ofSource source).parseStatement.rest = s'.input := by
    show (State.start (ofSource source)).statement.state.input = _
    rw [h]
  have hpending : s'.input.pending = [] := List.map_eq_nil_iff.1 hend
  rcases parseStatement_cases hlawful with ⟨taken, hne, htaken, hlast, hterminals⟩ | ⟨-, hterminals⟩
  · rw [hrest, hpending, List.append_nil] at htaken
    have hmore : (ofSource source).isAtEnd = false := by
      rw [isAtEnd, htaken, List.isEmpty_eq_false_iff.2 hne, Bool.false_and]
    have hdone : s'.input.isAtEnd = true := by
      rw [hrest] at hlast
      rw [isAtEnd, hpending, hlast, comments_last_ofSource hcomments]
      rfl
    refine ⟨_, ?_, congrArg Statement.children hstatement, ?_⟩
    · rw [parse, parseAll_cons hlawful hmore, hrest, parseAll_nil hdone]
      rfl
    · rw [hterminals, ← pending_ofSource, htaken]
  · -- the statement ends with the semicolon and not with the end of the source
    have hfront : (ofSource source).parseStatement.statement.tree.terminals
        = Forest.terminals front ++ [semi] := by
      rw [hstatement]
      show Forest.terminals (front ++ [.token semi]) = _
      rw [Took.terminals_append]
      rfl
    obtain ⟨-, hlast⟩ := List.append_inj' (hfront.symm.trans hterminals) rfl
    have heof := hlawful.last
    rw [← List.singleton_inj.1 hlast, Token.isEof, hsemi] at heof
    cases heof

end TokenStream

/-- A column of a query with a wrapped number. -/
theorem exists_runs_column (w : List Wrapper) (hw : Wrapper.Fit w) {s : State}
    (hs : s.input.Lawful) {kind : TokenKind} {behind : List TokenKind}
    (hkinds : s.kinds = wrappedKinds w ++ kind :: behind) (hkind : kind ∈ [.comma, .semicolon]) :
    EntersAt 0 s.lookahead ∧ ∃ f s', resultColumn.Runs 0 s [.node .resultColumn f] s'
      ∧ s'.kinds = kind :: behind ∧ Encloses maxDepth w f
      ∧ Forest.terminals [.node .resultColumn f] ≠ [] := by
  have henters := (entersAt_wrappedKinds w hkinds).mono (Nat.zero_le _)
  obtain ⟨f, s', hruns, hkinds', hf⟩ := exists_runs_wrapped w hw .expression (Nat.zero_le _)
    (Nat.zero_le maxDepth) hs hkinds ((by decide : [TokenKind.comma, .semicolon] ⊆ _) hkind)
  have hcolumn := runs_resultColumn henters hruns (by
    rw [(State.kinds_cons hkinds').1]
    exact (by decide : [TokenKind.comma, .semicolon] ⊆ _) hkind)
  refine ⟨henters, f, s', hcolumn, hkinds', hf, hcolumn.terminals_ne_nil hs ?_⟩
  rw [hkinds, hkinds']
  exact wrappedKinds_append_ne w _

/-- A query with two columns, the second of which is a number. -/
def selectTwo (word : Token) (f : Forest) (comma two : Token) : Tree :=
  .node .select
    [.token word, .node .resultColumn f, .token comma, .node .resultColumn [.token two]]

section SelectTwo

variable (word comma two semi : Token) (f : Forest)

theorem errors_selectTwo :
    (Tree.node .sqlStatement ([selectTwo word f comma two] ++ [.token semi])).errors
      = Forest.errors f := by
  simp [selectTwo, Tree.errors, Forest.errors, List.filterMap_cons, Leaf.error?]

theorem terminals_selectTwo :
    (Tree.node .sqlStatement ([selectTwo word f comma two] ++ [.token semi])).terminals
      = word :: Forest.terminals f ++ [comma, two, semi] := by
  simp [selectTwo, Tree.terminals, Forest.terminals, Leaf.token?]

/-- Parentheses are in the first column only. -/
theorem nodes_selectTwo :
    (Tree.node .sqlStatement ([selectTwo word f comma two] ++ [.token semi])).nodes.filter
        (·.1 == .parenthesized)
      = (Forest.nodes f).filter (·.1 == .parenthesized) := by
  simp [selectTwo]

end SelectTwo

/-- **The query for a wrapped number** is parsed to its semicolon. -/
theorem statement_wrapped (w : List Wrapper) (hw : Wrapper.Fit w) {s : State}
    (hs : s.input.Lawful) {behind : List TokenKind}
    (hkinds : s.kinds
      = .keyword .SELECT :: (wrappedKinds w ++ .comma :: .numeric :: .semicolon :: behind)) :
    ∃ f word comma two semi s', Encloses maxDepth w f
      ∧ s.statement = ⟨[selectTwo word f comma two] ++ [.token semi], s'⟩
      ∧ semi.kind = .semicolon ∧ s'.kinds = behind := by
  obtain ⟨hword, hkinds₁⟩ := State.kinds_cons hkinds
  obtain ⟨henters, f, s₁, hruns, hkinds₂, hf, hterminals⟩ :=
    exists_runs_column w hw hs.advance hkinds₁ (by decide)
  obtain ⟨hcomma, hkinds₃⟩ := State.kinds_cons hkinds₂
  have hs₁ := (hruns.lawful hs.advance).advance
  obtain ⟨henters', g, s₂, hruns', hkinds₄, hg, hterminals'⟩ :=
    exists_runs_column [] .nil hs₁ hkinds₃ (by decide)
  obtain ⟨two, rfl⟩ : ∃ two, g = [.token two] := by
    cases hg
    exact ⟨_, rfl⟩
  obtain ⟨hsemi, hend⟩ := State.kinds_cons hkinds₄
  have hstarts {s : State} (h : EntersAt 0 s.lookahead) :
      s.current.kind.startsResultColumn = true := (Bool.or_eq_true _ _).mpr (.inr h.starts)
  refine ⟨f, s.current, s₁.current, two, s₂.current, s₂.advance, hf, ?_, hsemi, hend⟩
  refine statement_columns rfl hword henters ?_ (by rw [hsemi]; rfl)
  refine .list_more hs.advance (henters.ne rfl) (hstarts henters) hruns hterminals rfl hcomma ?_
  refine .list_last hs₁ (henters'.ne rfl) (hstarts henters') hruns' hterminals' ?_ (.inr ?_)
  · rw [hsemi]
    decide
  · rw [hsemi]
    rfl

/-- **Nesting is cut off behind 200 wrappers**, whatever they are. Up to 199 of them the
query for a wrapped number has no error, and from there on exactly one. Either way it is
one statement and keeps every token in its place, the parentheses before the cut-off are
all opened and closed, and the second column is read as if the first were not there. -/
theorem parse_wrappedQuery (w : List Wrapper) (hw : Wrapper.Fit w) :
    ∃ statement, parse (wrappedQuery w) = [statement]
      ∧ statement.tree.errors
        = (if w.length ≤ 199 then [] else [.expecting "expression nested too deeply"])
      ∧ statement.tree.terminals = (tokenize (wrappedQuery w)).filter Token.isSignificant
      ∧ (∀ n ∈ statement.tree.nodes, n.1 = .parenthesized → n.2.IsEnclosed)
      ∧ statement.tree.nodes.countP (·.1 == .parenthesized) = (w.take 200).count .paren
      ∧ ∃ (word comma two semi : Token) (f : Forest), (two.kind, two.text) = (.numeric, "2")
        ∧ statement.children = [.node .select [.token word, .node .resultColumn f, .token comma,
          .node .resultColumn [.token two]], .token semi] := by
  obtain ⟨hreadings, hcomments⟩ := (readsAs_wrappedQuery w).tokenize
  have hkinds : (State.start (.ofSource (wrappedQuery w))).kinds
      = .keyword .SELECT :: (wrappedKinds w ++ [.comma, .numeric, .semicolon]) := by
    have hfst := congrArg (List.map Prod.fst) hreadings
    rw [List.map_map, ← TokenStream.pending_ofSource, List.map_map] at hfst
    refine hfst.trans ?_
    simp [wrappedKinds, Function.comp_def]
  obtain ⟨f, word, comma, two, semi, s', hf, hstatement, hsemi, hend⟩ :=
    statement_wrapped w hw (TokenStream.lawful_ofSource (wrappedQuery w)) hkinds
  obtain ⟨statement, hparse, hchildren, hterminals⟩ :=
    TokenStream.parse_of_statement hcomments hstatement hsemi hend
  have htree : statement.tree
      = .node .sqlStatement ([selectTwo word f comma two] ++ [.token semi]) :=
    congrArg _ hchildren
  have hnodes := nodes_selectTwo word comma two semi f
  rw [← htree] at hnodes
  refine ⟨statement, hparse, ?_, hterminals, ?_, ?_, word, comma, two, semi, f, ?_, hchildren⟩
  · rw [htree, errors_selectTwo, hf.errors_eq, maxDepth]
    simp only [Nat.lt_succ_iff]
  · intro n hn hkind
    have hmem : n ∈ statement.tree.nodes.filter (·.1 == .parenthesized) :=
      List.mem_filter.2 ⟨hn, beq_iff_eq.2 hkind⟩
    rw [hnodes] at hmem
    exact hf.isEnclosed n (List.mem_filter.1 hmem).1 hkind
  · rw [List.countP_eq_length_filter, hnodes, ← List.countP_eq_length_filter]
    exact hf.count_nodes
  · -- the last three tokens are those that the query ends with
    rw [← hterminals, htree, terminals_selectTwo, List.map_append] at hreadings
    obtain ⟨-, hlast⟩ := List.append_inj' hreadings rfl
    simp only [List.map_cons, List.cons.injEq] at hlast
    exact hlast.2.1

/-- At the limit one wrapper more or less decides. -/
theorem parse_wrappedQuery_limit :
    ∃ w : List Wrapper, w.length = 200 ∧ Wrapper.Fit w ∧ Wrapper.Fit w.tail
      ∧ (∃ statement, parse (wrappedQuery w) = [statement]
        ∧ statement.tree.errors = [.expecting "expression nested too deeply"]
        ∧ statement.tree.nodes.countP (·.1 == .parenthesized) = 80)
      ∧ ∃ statement, parse (wrappedQuery w.tail) = [statement] ∧ statement.tree.errors = []
        ∧ statement.tree.nodes.countP (·.1 == .parenthesized) = 80 := by
  let w : List Wrapper := (List.replicate 40 [.not, .paren, .minus, .tilde, .paren]).flatten
  have hw : Wrapper.Fit w := by decide +kernel
  have hw' : Wrapper.Fit w.tail := by decide +kernel
  obtain ⟨statement, hparse, herrors, -, -, hcount, -⟩ := parse_wrappedQuery w hw
  obtain ⟨statement', hparse', herrors', -, -, hcount', -⟩ := parse_wrappedQuery w.tail hw'
  exact ⟨w, by decide +kernel, hw, hw',
    ⟨statement, hparse, herrors.trans (if_neg (by decide +kernel)),
      hcount.trans (by decide +kernel)⟩,
    statement', hparse', herrors'.trans (if_pos (by decide +kernel)),
    hcount'.trans (by decide +kernel)⟩

end TolerantSql
