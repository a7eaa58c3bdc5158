import TolerantSql.Proofs.Adjacency
import TolerantSql.Proofs.ExpressionGrammar
import TolerantSql.Proofs.RuleRuns

/-!
# Every expression is found

Where the tokens of a phrase come next, its rule adds the phrase and nothing else,
provided that what stands behind the phrase does not go on with it.

The proviso carries the induction. Each level of binding leaves off at the first token
that is no operator of its own, so an operand is found only where no level from its
own on has anything left to take, which is what `StopsAt` says of a lookahead: behind
the operand of an operator stands an operator of that level or of a looser one, and
the keywords of the equality level stop everything that binds more tightly. What a
phrase begins with (`EntersAt`) decides in turn which rule is tried, for instance that
a `NOT` at its front is a negation and no part of an operator.

There is a lemma about `Part.Finds` for each way to form a phrase, and `Phrase.finds`
puts them together.
-/

namespace TolerantSql

open Rule

/-! ## What stands before and behind -/

theorem Lookahead.isKeyword_of_isKeywordIn {v : Lookahead} {words : List Keyword} {word : Keyword}
    (h : v.isKeywordIn words = false) (hword : word ∈ words) : v.isKeyword word = false := by
  refine beq_eq_false_iff_ne.2 fun hkind => ?_
  rw [isKeywordIn, hkind] at h
  exact Bool.false_ne_true (h.symm.trans (List.contains_iff_mem.2 hword))

/-- Keywords that begin a test of the equality level. -/
def testKeywords : List Keyword :=
  [.NOT, .IS, .ISNULL, .NOTNULL, .BETWEEN, .IN, .LIKE, .GLOB, .REGEXP, .MATCH]

/-- **What comes behind an operand of a rank and does not go on with it.** -/
structure StopsAt (rank : Nat) (v : Lookahead) : Prop where
  dot : v.current ≠ .dot
  paren : v.current ≠ .leftParen
  window : v.isKeywordIn [.FILTER, .OVER] = false
  collation : rank ≤ Level.collate.rank → v.isKeyword .COLLATE = false
  operator : ∀ level, v.current.operatorLevel? = some level → level.rank < rank
  escape : rank ≤ Level.equality.rank → v.isKeyword .ESCAPE = false
  test : rank ≤ Level.equality.rank → equalityLink? v = none

namespace StopsAt

variable {v : Lookahead} {rank : Nat}

theorem mono {rank' : Nat} (h : StopsAt rank v) (hle : rank ≤ rank') : StopsAt rank' v where
  dot := h.dot
  paren := h.paren
  window := h.window
  collation hrank := h.collation (Nat.le_trans hle hrank)
  operator level hlevel := Nat.lt_of_lt_of_le (h.operator level hlevel) hle
  escape hrank := h.escape (Nat.le_trans hle hrank)
  test hrank := h.test (Nat.le_trans hle hrank)

/-- Tokens that are no operators and no part of an operand end an expression. -/
theorem of_kind {kind : TokenKind} (hv : v.current = kind)
    (hkind : kind ∈ [.comma, .rightParen, .semicolon, .eof, .keyword .AS, .keyword .WHEN,
      .keyword .THEN, .keyword .ELSE, .keyword .END, .keyword .PRECEDING]) : StopsAt 0 v := by
  obtain ⟨current, next, afterNext, word⟩ := v
  cases hv
  simp only [List.mem_cons, List.not_mem_nil, or_false] at hkind
  rcases hkind with rfl | rfl | rfl | rfl | rfl | rfl | rfl | rfl | rfl | rfl <;>
    exact ⟨nofun, nofun, rfl, fun _ => rfl, nofun, fun _ => rfl, fun _ => rfl⟩

/-- An operator ends the operand before it. -/
theorem of_operator {level : Level} (h : v.current.operatorLevel? = some level) :
    StopsAt (level.rank + 1) v := by
  obtain ⟨current, next, afterNext, word⟩ := v
  dsimp only at h
  unfold TokenKind.operatorLevel? at h
  split at h <;> cases h
  all_goals
    exact ⟨nofun, nofun, rfl, fun _ => rfl, fun _ h => by cases h; exact Nat.lt_succ_self _,
      fun _ => rfl, fun h => by first | rfl | exact absurd h (by decide)⟩

/-- The keywords of the equality level end the operand before them. -/
theorem of_testKeyword {word : Keyword} (hv : v.current = .keyword word)
    (hword : word ∈ testKeywords ++ [.ESCAPE, .AND]) : StopsAt 4 v := by
  obtain ⟨current, next, afterNext, text⟩ := v
  cases hv
  simp only [testKeywords, List.cons_append, List.nil_append, List.mem_cons, List.not_mem_nil,
    or_false] at hword
  rcases hword with rfl | rfl | rfl | rfl | rfl | rfl | rfl | rfl | rfl | rfl | rfl | rfl <;>
    exact ⟨nofun, nofun, rfl, fun _ => rfl, fun _ h => by cases h <;> decide,
      fun h => absurd h (by decide), fun h => absurd h (by decide)⟩

/-- `COLLATE` ends the operand before it. -/
theorem of_collate (h : v.isKeyword .COLLATE = true) : StopsAt 10 v := by
  obtain ⟨current, next, afterNext, word⟩ := v
  cases beq_iff_eq.1 h
  exact ⟨nofun, nofun, rfl, fun h => absurd h (by decide), nofun,
    fun h => absurd h (by decide), fun h => absurd h (by decide)⟩

end StopsAt

/-- **What an expression of a rank begins with.** -/
structure EntersAt (rank : Nat) (v : Lookahead) : Prop where
  starts : v.current.startsExpression = true
  notExists : v.current ≠ .keyword .EXISTS
  notNot : Level.equality.rank ≤ rank → v.current ≠ .keyword .NOT
  notUnary : 11 ≤ rank → v.current.isUnaryOperator = false
  notStar : (v.isName && v.nextIs .dot && v.afterNext == .star) = false

namespace EntersAt

variable {v : Lookahead} {rank rank' : Nat}

theorem mono (h : EntersAt rank v) (hle : rank' ≤ rank) : EntersAt rank' v :=
  ⟨h.starts, h.notExists, fun hrank => h.notNot (Nat.le_trans hrank hle),
    fun hrank => h.notUnary (Nat.le_trans hrank hle), h.notStar⟩

/-- What begins an expression is not what ends one, or a list of them. -/
theorem ne (h : EntersAt rank v) {kind : TokenKind} (hkind : kind.startsExpression = false) :
    v.current ≠ kind := by
  rintro rfl
  rw [h.starts] at hkind
  cases hkind

theorem isKeywordIn (h : EntersAt rank v) {words : List Keyword}
    (hwords : ∀ word ∈ words, (TokenKind.keyword word).startsExpression = false) :
    v.isKeywordIn words = false := by
  rw [Lookahead.isKeywordIn]
  cases hkind : v.current with
  | keyword word =>
    refine Bool.eq_false_iff.2 fun hin => ?_
    exact h.ne (hwords word (List.contains_iff_mem.1 hin)) hkind
  | _ => rfl

end EntersAt

/-! ## Parts and their rules -/

/-- The rule of the operands of a rank. -/
def Rule.ofRank : Nat → Rule
  | 0 => disjunction
  | 1 => conjunction
  | 2 => negation
  | 3 => equality
  | 4 => comparison
  | 5 => bitwise
  | 6 => additive
  | 7 => multiplicative
  | 8 => concatenation
  | 9 => collate
  | 10 => unary
  | _ => primary

theorem Rule.ofRank_of_binary {level : Level} (h : level ∈ Level.binaries) :
    ofRank level.rank = binary level (ofRank (level.rank + 1)) := by
  simp only [Level.binaries, List.mem_cons, List.not_mem_nil, or_false] at h
  rcases h with rfl | rfl | rfl | rfl | rfl | rfl | rfl <;> rfl

namespace Element

/-- The rule of an element. -/
def rule : Element → Rule
  | link level => all [shift, ofRank (level.rank + 1)]
  | collation => all [shift, collationName]
  | test => look fun v => (equalityLink? v).getD done
  | escape => all [shift, comparison]
  | arm => whenArm
  | otherwise => elseArm

/-- Whether an element comes next. -/
def comes : Element → Lookahead → Bool
  | link level => (·.current.operatorLevel? == some level)
  | collation => (·.isKeyword .COLLATE)
  | test => fun v => (equalityLink? v).isSome
  | escape => (·.isKeyword .ESCAPE)
  | arm => (·.isKeyword .WHEN)
  | otherwise => (·.isKeyword .ELSE)

/-- What may stand behind an element. -/
def Stops : Element → Lookahead → Prop
  | link level => StopsAt (level.rank + 1)
  | collation => fun _ => True
  | test => fun v => StopsAt 4 v ∧ v.isKeyword .ESCAPE = false
  | escape => StopsAt 4
  | arm | otherwise => StopsAt 0

/-- The tests of the equality level by their first token. -/
theorem current_of_equalityLink {v : Lookahead} (h : (equalityLink? v).isSome = true) :
    v.current.operatorLevel? = some .equality
      ∨ ∃ word, v.current = .keyword word ∧ word ∈ testKeywords := by
  have hwords : ∀ {words : List Keyword}, v.current.isKeywordIn words = true →
      (∀ word ∈ words, word ∈ testKeywords) →
      ∃ word, v.current = .keyword word ∧ word ∈ testKeywords := by
    intro words hin hall
    cases hkind : v.current with
    | keyword word =>
      rw [hkind] at hin
      exact ⟨word, rfl, hall word (List.contains_iff_mem.1 hin)⟩
    | _ => rw [hkind] at hin; cases hin
  have hword : ∀ {word : Keyword}, (v.current == .keyword word) = true → word ∈ testKeywords →
      ∃ word, v.current = .keyword word ∧ word ∈ testKeywords :=
    fun hkind hmem => ⟨_, beq_iff_eq.1 hkind, hmem⟩
  cases hnegated : negatesOperator v with
  | true => exact .inr (hword ((Bool.and_eq_true _ _).mp hnegated).1 (by decide))
  | false =>
    unfold equalityLink? at h
    simp only [hnegated, Bool.false_eq_true, if_false, Bool.and_false] at h
    split_ifs at h with heq hnull his hbetween hin hpattern
    · exact .inl (beq_iff_eq.1 heq)
    · exact .inr (hwords hnull (by decide))
    · exact .inr (hword his (by decide))
    · exact .inr (hword hbetween (by decide))
    · exact .inr (hword hin (by decide))
    · exact .inr (hwords hpattern (by decide))
    · cases h

/-- **An element may stand behind another one of its sort.** -/
theorem stops_of_comes {element : Element} {v : Lookahead} (h : element.comes v = true) :
    element.Stops v := by
  cases element with
  | link level => exact .of_operator (beq_iff_eq.1 h)
  | collation => trivial
  | test =>
    rcases current_of_equalityLink h with hlevel | ⟨word, hword, hmem⟩
    · refine ⟨.of_operator hlevel, ?_⟩
      rw [Lookahead.isKeyword, beq_eq_false_iff_ne]
      intro hkind
      rw [hkind] at hlevel
      cases hlevel
    · refine ⟨.of_testKeyword hword (List.mem_append_left _ hmem), ?_⟩
      rw [Lookahead.isKeyword, hword, beq_eq_false_iff_ne]
      rintro ⟨⟩
      exact absurd hmem (by decide)
  | escape => exact .of_testKeyword (beq_iff_eq.1 h) (by decide)
  | arm => exact .of_kind (beq_iff_eq.1 h) (by decide)
  | otherwise => exact .of_kind (beq_iff_eq.1 h) (by decide)

end Element

namespace Part

/-- **The rule of a part.** -/
def rule : Part → Rule
  | operand rank => ofRank rank
  | inner => expr
  | items => expressionList
  | one element => element.rule
  | many element => loop element.comes element.rule
  | optional element => onlyIf element.comes element.rule

/-- What a part begins with. -/
def Enters : Part → Lookahead → Prop
  | operand rank => EntersAt rank
  | inner | items => EntersAt 0
  | one element | many element => fun v => element.comes v = true
  | optional _ => fun _ => True

/-- **What may stand behind a part.** -/
def Stops : Part → Lookahead → Prop
  | operand rank => StopsAt rank
  | inner => StopsAt 0
  | items => fun v => v.current = .rightParen
  | one element => element.Stops
  | many element | optional element => fun v => element.Stops v ∧ element.comes v = false

/-- **A part is found where its tokens come next**, and only its tokens are taken. -/
def Finds (part : Part) (n : Nat) (f : Forest) : Prop :=
  ∀ (depth : Nat) (s s' : State), depth + n ≤ maxDepth → s.input.Lawful →
    Reads (Forest.terminals f) s s' → part.Stops s'.lookahead →
    part.Enters s.lookahead ∧ part.rule.Runs depth s f s'

end Part

/-! ## Runs of operands and operators -/

namespace Rule.Runs

variable {depth rank : Nat} {s s' : State} {f g : Forest}

/-- **An operand of a rank is one of every looser rank**: the looser levels find no
operator of their own behind it. -/
theorem loosen (h : (ofRank (rank + 1)).Runs depth s f s')
    (henters : EntersAt (rank + 1) s.lookahead) (hstops : StopsAt rank s'.lookahead) :
    (ofRank rank).Runs depth s f s' := by
  have hlevel : ∀ level : Level, rank ≤ level.rank →
      (s'.lookahead.current.operatorLevel? == some level) = false := by
    intro level hrank
    refine beq_eq_false_iff_ne.2 fun hsome => ?_
    exact Nat.not_lt_of_le hrank (hstops.operator level hsome)
  match rank with
  | 0 => exact h.chain_stop (hlevel .or (by decide))
  | 1 => exact h.chain_stop (hlevel .and (by decide))
  | 2 =>
    refine branch_neg ?_ h
    rw [Lookahead.isKeyword, beq_eq_false_iff_ne.2 (henters.notNot (by decide)), Bool.false_and]
  | 3 =>
    refine h.chain_stop ?_
    rw [hstops.test (by decide)]
    rfl
  | 4 => exact h.chain_stop (hlevel .comparison (by decide))
  | 5 => exact h.chain_stop (hlevel .bitwise (by decide))
  | 6 => exact h.chain_stop (hlevel .additive (by decide))
  | 7 => exact h.chain_stop (hlevel .multiplicative (by decide))
  | 8 => exact h.chain_stop (hlevel .concatenation (by decide))
  | 9 => exact h.chain_stop (hstops.collation (by decide))
  | 10 => exact branch_neg (henters.notUnary (by decide)) h
  | _ + 11 => exact h

/-- An operand of any looser rank. -/
theorem loosen_of_le {rank' : Nat} (h : (ofRank rank').Runs depth s f s')
    (henters : EntersAt rank' s.lookahead) (hle : rank ≤ rank')
    (hstops : StopsAt rank s'.lookahead) : (ofRank rank).Runs depth s f s' := by
  induction hle with
  | refl => exact h
  | step hle ih =>
    exact ih (h.loosen henters (hstops.mono hle)) (henters.mono (Nat.le_succ _))

/-- One expression is a list of them before a parenthesis. -/
theorem expressionList_one (h : expr.Runs depth s f s') (hs : s.input.Lawful)
    (henters : EntersAt 0 s.lookahead) (hf : Forest.terminals f ≠ [])
    (hparen : s'.lookahead.current = .rightParen) : expressionList.Runs depth s f s' := by
  refine .list_last hs (henters.ne rfl) henters.starts h hf ?_ (.inr ?_)
  · exact fun h => by cases hparen.symm.trans h
  · show s'.lookahead.current.followsExpressionList = true
    rw [hparen]
    rfl

/-- Expressions in parentheses. -/
theorem parenthesized {lp rp : Token} (h : expressionList.Runs depth s.advance g s')
    (hcurrent : s.current = lp) (hlp : lp.kind = .leftParen)
    (henters : EntersAt 0 s.advance.lookahead) (hcurrent' : s'.current = rp)
    (hrp : rp.kind = .rightParen) :
    primary.Runs depth s [.node .parenthesized (.token lp :: (g ++ [.token rp]))] s'.advance := by
  have hnext := State.lookahead_next s
  refine .look (if_pos (beq_iff_eq.2 (State.lookahead_current hcurrent hlp))) (.branch_neg ?_ (.node
    (.cons (.token hcurrent hlp rfl) (.cons h (.last (.closeParen hcurrent' hrp))))))
  rw [Lookahead.nextIsKeyword, hnext, beq_eq_false_iff_ne]
  exact henters.ne rfl

/-- An operand behind a prefix operator. -/
theorem unary {t : Token} (h : (Rule.nested .unary).Runs depth s.advance f s')
    (hcurrent : s.current = t) (ht : t.kind.isUnaryOperator = true) :
    Rule.unary.Runs depth s [.node .unary (.token t :: f)] s' := by
  refine .branch_pos ?_ (.node (.cons
    (.shift hcurrent (TokenKind.opensOperand_of_isUnaryOperator ht).1) (.last h)))
  rw [State.lookahead_current hcurrent rfl]
  exact ht

/-- A negation of what does not begin with `EXISTS`. -/
theorem not {t : Token} (h : (Rule.nested .negation).Runs depth s.advance f s')
    (hcurrent : s.current = t) (ht : t.kind = .keyword .NOT)
    (henters : EntersAt rank s.advance.lookahead) :
    negation.Runs depth s [.node .not (.token t :: f)] s' := by
  refine .branch_pos ?_ (.node (.cons (.token hcurrent ht rfl) (.last h)))
  have hnext := State.lookahead_next s
  have hexists : (s.lookahead.next == .keyword .EXISTS) = false := by
    rw [hnext, beq_eq_false_iff_ne]
    exact henters.notExists
  rw [Lookahead.isKeyword, State.lookahead_current hcurrent ht, Lookahead.nextIsKeyword, hexists]
  rfl

end Rule.Runs

namespace Part.Finds

variable {n : Nat} {f g : Forest}

/-- An operand of a rank is found where one of a looser rank is looked for. -/
theorem loosen {rank : Nat} (h : (operand (rank + 1)).Finds n f) : (operand rank).Finds n f := by
  intro depth s s' hdepth hs hreads hstops
  obtain ⟨henters, hruns⟩ := h depth s s' hdepth hs hreads (StopsAt.mono hstops (Nat.le_succ _))
  exact ⟨EntersAt.mono henters (Nat.le_succ _), hruns.loosen henters hstops⟩

theorem mono {rank rank' : Nat} (h : (operand rank').Finds n f) (hle : rank ≤ rank') :
    (operand rank).Finds n f := by
  induction hle with
  | refl => exact h
  | step _ ih => exact ih h.loosen

/-! ### Operands without operators -/

section Operands

variable {depth : Nat} {s s' : State} {v : Lookahead}

/-- The kinds of literals. -/
theorem mem_of_isLiteral {kind : TokenKind} (h : kind.isLiteral = true) :
    kind ∈ [.numeric, .string, .blob, .questionVariable, .colonVariable, .atVariable,
      .dollarVariable, .keyword .NULL, .keyword .CURRENT_DATE, .keyword .CURRENT_TIME,
      .keyword .CURRENT_TIMESTAMP] := by
  cases kind with
  | keyword word =>
    replace h : [Keyword.NULL, .CURRENT_DATE, .CURRENT_TIME, .CURRENT_TIMESTAMP].contains word
      = true := h
    simpa using h
  | _ => first | decide | cases h

/-- Literals begin and are expressions. -/
theorem literal {t : Token} (h : t.kind.isLiteral = true) : (operand 11).Finds n [.token t] := by
  intro depth s s' _ hs hreads _
  obtain ⟨rfl, rfl⟩ := hreads
  have hv : s.lookahead = ⟨s.current.kind, _, _, _⟩ := State.lookahead_eq rfl
  have htakes := (TokenKind.startsOperand_of_isLiteral h).1
  refine ⟨?_, Runs.look ?_ (.shift rfl htakes)⟩
  all_goals
    rw [hv]
    replace h := mem_of_isLiteral h
    generalize s.current.kind = kind at h
    simp only [List.mem_cons, List.not_mem_nil, or_false] at h
    rcases h with rfl | rfl | rfl | rfl | rfl | rfl | rfl | rfl | rfl | rfl | rfl
  all_goals first
    | rfl
    | exact ⟨rfl, nofun, fun _ => nofun, fun _ => rfl, rfl⟩

/-- Names, parentheses and the keywords of `CASE` and `CAST` begin operands; a name
that is followed by a dot and a star does not. -/
theorem entersAt_of_kind {kind : TokenKind} (hv : v.current = kind)
    (hkind : kind ∈ [.identifier, .leftParen, .keyword .CASE, .keyword .CAST])
    (hnext : v.next ≠ .dot ∨ v.afterNext ≠ .star) : EntersAt 11 v := by
  obtain ⟨current, next, afterNext, word⟩ := v
  cases hv
  have hstar : (next == .dot && afterNext == .star) = false := by
    rw [Bool.and_eq_false_iff, beq_eq_false_iff_ne, beq_eq_false_iff_ne]
    exact hnext
  simp only [List.mem_cons, List.not_mem_nil, or_false] at hkind
  rcases hkind with rfl | rfl | rfl | rfl <;>
    exact ⟨rfl, nofun, fun _ => nofun, fun _ => rfl, by first | exact hstar | rfl⟩

/-- A name is a call if a parenthesis follows it, and else begins a column. -/
theorem primary_of_identifier {r : Rule} (hv : s.lookahead.current = .identifier)
    (hr : (if s.lookahead.nextIs .leftParen then functionCall else columnReference) = r)
    {f : Forest} (h : r.Runs depth s f s') : primary.Runs depth s f s' := by
  refine .look ?_ h
  rw [← hr]
  generalize s.lookahead = v at hv
  obtain ⟨current, next, afterNext, word⟩ := v
  cases hv
  rfl

theorem columnPart_absent {behind : Rule} (h : s.current.kind ≠ .dot) :
    (columnPart behind).Runs depth s [] s := .onlyIf_neg (beq_eq_false_iff_ne.2 h)

theorem columnPart_present {behind : Rule} {d name : Token} (hd : s.current = d)
    (hdot : d.kind = .dot) (hname : s.advance.current = name) (hkind : name.kind = .identifier)
    (h : behind.Runs depth s.advance.advance f s') :
    (columnPart behind).Runs depth s ([.token d] ++ ([.token name] ++ f)) s' := by
  refine .onlyIf_pos (beq_iff_eq.2 (State.lookahead_current hd hdot))
    (.cons (.token hd hdot rfl) (.last (.branch_pos ?_
      (.cons (.token hname hkind rfl) (.last h)))))
  rw [Lookahead.isName, State.lookahead_current hname hkind]
  rfl

theorem column_of_parts {a : Token} (ha : s.current = a) (hkind : a.kind = .identifier)
    (hparen : s.advance.current.kind ≠ .leftParen)
    (hstar : s.lookahead.next ≠ .dot ∨ s.lookahead.afterNext ≠ .star)
    (h : (columnPart (columnPart done)).Runs depth s.advance f s') :
    EntersAt 11 s.lookahead
      ∧ primary.Runs depth s [.node .columnReference ([.token a] ++ f)] s' := by
  have hv := State.lookahead_current ha hkind
  have hnext := State.lookahead_next s
  refine ⟨entersAt_of_kind hv (by decide) hstar, primary_of_identifier hv (if_neg ?_)
    (.node (.cons (.token ha hkind rfl) (.last h)))⟩
  rw [Lookahead.nextIs, hnext, beq_iff_eq]
  exact hparen

theorem column {kinds : List TokenKind} (hf : Spells kinds f)
    (hkinds : kinds ∈ [[.identifier], [.identifier, .dot, .identifier],
      [.identifier, .dot, .identifier, .dot, .identifier]]) :
    (operand 11).Finds n [.node .columnReference f] := by
  intro depth s s' _ hs hreads hstops
  simp only [List.mem_cons, List.not_mem_nil, or_false] at hkinds
  rcases hkinds with rfl | rfl | rfl
  · obtain ⟨a, _, rfl, ha, rfl⟩ := hf
    simp only [reads_node, reads_token, reads_nil] at hreads
    obtain ⟨_, ⟨hcurrent, rfl⟩, rfl⟩ := hreads
    have hnext := State.lookahead_next s
    exact column_of_parts hcurrent ha hstops.paren (.inl (hnext ▸ hstops.dot))
      (columnPart_absent hstops.dot)
  · obtain ⟨a, _, rfl, ha, d, _, rfl, hd, b, _, rfl, hb, rfl⟩ := hf
    simp only [reads_node, reads_token, reads_nil] at hreads
    obtain ⟨_, ⟨hcurrent, hcurrent₁, hcurrent₂, rfl⟩, rfl⟩ := hreads
    have hafter := State.lookahead_afterNext s
    refine column_of_parts hcurrent ha (by rw [hcurrent₁, hd]; decide)
      (.inr (by rw [hafter, hcurrent₂, hb]; decide)) ?_
    exact columnPart_present hcurrent₁ hd hcurrent₂ hb (columnPart_absent hstops.dot)
  · obtain ⟨a, _, rfl, ha, d, _, rfl, hd, b, _, rfl, hb, d', _, rfl, hd', c, _, rfl, hc, rfl⟩ := hf
    simp only [reads_node, reads_token, reads_nil] at hreads
    obtain ⟨_, ⟨hcurrent, hcurrent₁, hcurrent₂, hcurrent₃, hcurrent₄, rfl⟩, rfl⟩ := hreads
    have hafter := State.lookahead_afterNext s
    refine column_of_parts hcurrent ha (by rw [hcurrent₁, hd]; decide)
      (.inr (by rw [hafter, hcurrent₂, hb]; decide)) ?_
    exact columnPart_present hcurrent₁ hd hcurrent₂ hb
      (columnPart_present hcurrent₃ hd' hcurrent₄ hc .done)

theorem parenthesized {a e : Forest} (ha : Spells [.leftParen] a) (h : items.Finds n g)
    (he : Spells [.rightParen] e) :
    (operand 11).Finds n [.node .parenthesized (a ++ (g ++ e))] := by
  intro depth s s' hdepth hs hreads hstops
  obtain ⟨lp, _, rfl, hlp, rfl⟩ := ha
  obtain ⟨rp, _, rfl, hrp, rfl⟩ := he
  simp only [reads_node, reads_forest_append, reads_token, reads_nil] at hreads
  obtain ⟨_, ⟨_, ⟨hcurrent, rfl⟩, s₁, hg, hcurrent₁, rfl⟩, rfl⟩ := hreads
  have hv := State.lookahead_current hcurrent hlp
  have hnext := State.lookahead_next s
  obtain ⟨henters, hruns⟩ := h depth _ s₁ hdepth hs.advance hg
    (State.lookahead_current hcurrent₁ hrp)
  refine ⟨entersAt_of_kind hv (by decide) (.inl ?_),
    hruns.parenthesized hcurrent hlp henters hcurrent₁ hrp⟩
  rw [hnext]
  exact henters.ne rfl

/-- A name and a parenthesis begin a call. -/
theorem call_of_parens {a lp : Token} (ha : s.current = a) (hkind : a.kind = .identifier)
    (hlp : s.advance.current = lp) (hparen : lp.kind = .leftParen) {f : Forest}
    (h : functionCall.Runs depth s f s') :
    EntersAt 11 s.lookahead ∧ primary.Runs depth s f s' := by
  have hv := State.lookahead_current ha hkind
  have hnext := State.lookahead_next s
  rw [hlp, hparen] at hnext
  refine ⟨entersAt_of_kind hv (by decide) (.inl (by rw [hnext]; exact nofun)),
    primary_of_identifier hv (if_pos ?_) h⟩
  rw [Lookahead.nextIs, hnext]
  rfl

/-- Nothing more belongs to a call behind its parentheses. -/
theorem call_ends (h : StopsAt 11 s.lookahead) :
    (all [onlyIf (·.isKeyword .FILTER) filterClause, onlyIf (·.isKeyword .OVER) overClause]).Runs
      depth s [] s := by
  have hword : ∀ word ∈ [Keyword.FILTER, .OVER], s.lookahead.isKeyword word = false :=
    fun _ => Lookahead.isKeyword_of_isKeywordIn h.window
  exact .skip (.onlyIf_neg (hword _ (by decide))) (.last (.onlyIf_neg (hword _ (by decide))))

theorem call {kinds : List TokenKind} (hf : Spells kinds f)
    (hkinds : kinds ∈ [[.identifier, .leftParen, .rightParen],
      [.identifier, .leftParen, .star, .rightParen]]) :
    (operand 11).Finds n [.node .functionCall f] := by
  intro depth s s' _ hs hreads hstops
  simp only [List.mem_cons, List.not_mem_nil, or_false] at hkinds
  rcases hkinds with rfl | rfl
  · obtain ⟨a, _, rfl, ha, lp, _, rfl, hlp, rp, _, rfl, hrp, rfl⟩ := hf
    simp only [reads_node, reads_token, reads_nil] at hreads
    obtain ⟨_, ⟨hcurrent, hcurrent₁, hcurrent₂, rfl⟩, rfl⟩ := hreads
    refine call_of_parens hcurrent ha hcurrent₁ hlp (.node (.cons (.token hcurrent ha rfl)
      (.cons (.token hcurrent₁ hlp rfl) (.skip (.look ?_ .done)
        (.cons (.closeParen hcurrent₂ hrp) (call_ends hstops))))))
    rw [State.lookahead_eq (State.lookahead_current hcurrent₂ hrp)]
    rfl
  · obtain ⟨a, _, rfl, ha, lp, _, rfl, hlp, star, _, rfl, hstar, rp, _, rfl, hrp, rfl⟩ := hf
    simp only [reads_node, reads_token, reads_nil] at hreads
    obtain ⟨_, ⟨hcurrent, hcurrent₁, hcurrent₂, hcurrent₃, rfl⟩, rfl⟩ := hreads
    refine call_of_parens hcurrent ha hcurrent₁ hlp (.node (.cons (.token hcurrent ha rfl)
      (.cons (.token hcurrent₁ hlp rfl) (.cons (.look ?_ (.token hcurrent₂ hstar rfl))
        (.cons (.closeParen hcurrent₃ hrp) (call_ends hstops))))))
    rw [State.lookahead_eq (State.lookahead_current hcurrent₂ hstar)]
    rfl

theorem callWith {kinds : List TokenKind} {e : Forest} (hf : Spells kinds f)
    (hkinds : kinds ∈ [[.identifier, .leftParen],
      [.identifier, .leftParen, .keyword .DISTINCT]])
    (h : items.Finds n g) (he : Spells [.rightParen] e) :
    (operand 11).Finds n [.node .functionCall (f ++ (g ++ e))] := by
  intro depth s s' hdepth hs hreads hstops
  obtain ⟨rp, _, rfl, hrp, rfl⟩ := he
  have horder : ∀ {s₁ : State}, s₁.current = rp →
      (onlyIf (·.isKeyword .ORDER) orderBy).Runs depth s₁ [] s₁ := fun hcurrent =>
    .onlyIf_neg (by rw [Lookahead.isKeyword, State.lookahead_current hcurrent hrp]; rfl)
  simp only [List.mem_cons, List.not_mem_nil, or_false] at hkinds
  rcases hkinds with rfl | rfl
  · obtain ⟨a, _, rfl, ha, lp, _, rfl, hlp, rfl⟩ := hf
    simp only [reads_node, reads_forest_append, reads_token, reads_nil] at hreads
    obtain ⟨_, ⟨_, ⟨hcurrent, hcurrent₁, rfl⟩, s₁, hg, hcurrent₂, rfl⟩, rfl⟩ := hreads
    obtain ⟨henters, hruns⟩ := h depth _ s₁ hdepth hs.advance.advance hg
      (State.lookahead_current hcurrent₂ hrp)
    have hdistinct : s.advance.advance.current.kind ≠ .keyword .DISTINCT := henters.ne rfl
    simp only [List.cons_append, List.nil_append]
    refine call_of_parens hcurrent ha hcurrent₁ hlp (.node (.cons (.token hcurrent ha rfl)
      (.cons (.token hcurrent₁ hlp rfl) (.cons (.look ?_ (.skip (.eat_neg hdistinct)
        (.keep hruns (.last (horder hcurrent₂)))))
        (.cons (.closeParen hcurrent₂ hrp) (call_ends hstops))))))
    exact (if_neg (fun h => henters.ne rfl (beq_iff_eq.1 h))).trans
      (if_neg fun h => henters.ne rfl (beq_iff_eq.1 h))
  · obtain ⟨a, _, rfl, ha, lp, _, rfl, hlp, d, _, rfl, hd, rfl⟩ := hf
    simp only [reads_node, reads_forest_append, reads_token, reads_nil] at hreads
    obtain ⟨_, ⟨_, ⟨hcurrent, hcurrent₁, hcurrent₂, rfl⟩, s₁, hg, hcurrent₃, rfl⟩, rfl⟩ := hreads
    obtain ⟨henters, hruns⟩ := h depth _ s₁ hdepth hs.advance.advance.advance hg
      (State.lookahead_current hcurrent₃ hrp)
    simp only [List.cons_append, List.nil_append]
    refine call_of_parens hcurrent ha hcurrent₁ hlp (.node (.cons (.token hcurrent ha rfl)
      (.cons (.token hcurrent₁ hlp rfl) (.cons (.look ?_ (.cons (.eatKeyword hcurrent₂ hd)
        (.keep hruns (.last (horder hcurrent₃)))))
        (.cons (.closeParen hcurrent₃ hrp) (call_ends hstops))))))
    rw [State.lookahead_eq (State.lookahead_current hcurrent₂ hd)]
    rfl

theorem typeWords {k : Nat} {names : Forest} (hnames : Spells (List.replicate k .identifier) names)
    (hreads : Reads (Forest.terminals names) s s') (hstop : isTypeWord s'.lookahead = false)
    (hs : s.input.Lawful) : (loop isTypeWord shift).Runs depth s names s' := by
  induction k generalizing names s with
  | zero =>
    obtain rfl : names = [] := hnames
    obtain rfl : s' = s := hreads
    exact .loop_stop hstop
  | succ k ih =>
    obtain ⟨t, rest, rfl, ht, hrest⟩ := hnames
    obtain ⟨hcurrent, hreads⟩ := hreads
    have hword : isTypeWord s.lookahead = true := by
      rw [State.lookahead_eq (State.lookahead_current hcurrent ht)]
      rfl
    have hshift : shift.Runs depth s [.token t] s.advance := .token hcurrent ht rfl
    exact .loop_more hword hshift (hshift.remaining_lt hs (List.cons_ne_nil _ _))
      (ih hrest hreads hs.advance)

theorem cast {more : Nat} {a names e : Forest} (hf : Spells [.keyword .CAST, .leftParen] f)
    (h : inner.Finds n g) (ha : SpellsWords [.AS] a)
    (hnames : Spells (List.replicate (more + 1) .identifier) names)
    (he : Spells [.rightParen] e) :
    (operand 11).Finds n [.node .cast (f ++ (g ++ (a ++ ([.node .typeName names] ++ e))))] := by
  intro depth s s' hdepth hs hreads hstops
  obtain ⟨c, _, rfl, hc, lp, _, rfl, hlp, rfl⟩ := hf
  obtain ⟨as, _, rfl, has, rfl⟩ := ha
  obtain ⟨rp, _, rfl, hrp, rfl⟩ := he
  simp only [reads_node, reads_forest_append, reads_token, reads_nil] at hreads
  obtain ⟨_, ⟨_, ⟨hcurrent, hcurrent₁, rfl⟩, s₁, hg, _, ⟨hcurrent₂, rfl⟩, s₂, ⟨_, hreads', rfl⟩,
    hcurrent₃, rfl⟩, rfl⟩ := hreads
  have hv := State.lookahead_current hcurrent hc
  have hnext := State.lookahead_next s
  rw [hcurrent₁, hlp] at hnext
  have hstop : isTypeWord s₂.lookahead = false := by
    rw [State.lookahead_eq (State.lookahead_current hcurrent₃ hrp)]
    rfl
  obtain ⟨-, hinner⟩ := h depth _ s₁ hdepth hs.advance.advance hg
    (.of_kind (State.lookahead_current hcurrent₂ has) (by decide))
  have hlawful := (hinner.lawful hs.advance.advance).advance
  -- the first word of the type is an identifier
  have hword : isTypeWord s₁.advance.lookahead = true := by
    obtain ⟨t, rest, rfl, ht, -⟩ := hnames
    rw [State.lookahead_eq (State.lookahead_current hreads'.1 ht)]
    rfl
  have hparen : (onlyIf (·.is .leftParen) <| all [
      shift,
      signedNumber,
      onlyIf (·.is .comma) (all [shift, signedNumber]),
      closeParen]).Runs depth s₂ [] s₂ := by
    refine .onlyIf_neg ?_
    rw [State.lookahead_eq (State.lookahead_current hcurrent₃ hrp)]
    rfl
  refine ⟨entersAt_of_kind hv (by decide) (.inl (by rw [hnext]; decide)), .look (r := cast) ?_ ?_⟩
  · rw [State.lookahead_eq hv, hnext]
    rfl
  · simp only [List.cons_append, List.nil_append]
    exact .node (.cons (.token hcurrent hc rfl) (.cons (.token hcurrent₁ hlp rfl) (.cons hinner
      (.cons (.expectKeyword hcurrent₂ has) (.cons (.branch_pos hword (.node (.keep
        (typeWords hnames hreads' hstop hlawful) (.last hparen))))
        (.last (.closeParen hcurrent₃ hrp)))))))

/-- The arms of `CASE` with what stands behind them. -/
theorem caseArms {arms otherwise e : Forest} (harms : (many .arm).Finds n arms)
    (hotherwise : (optional .otherwise).Finds n otherwise) (he : SpellsWords [.END] e)
    (hdepth : depth + n ≤ maxDepth) (hs : s.input.Lawful)
    (hreads : Reads (Forest.terminals (arms ++ (otherwise ++ e))) s s') :
    s.lookahead.isKeyword .WHEN = true
      ∧ (all [
          onlyIf (fun v => !v.isKeyword .WHEN) (missing true "WHEN"),
          loop (·.isKeyword .WHEN) whenArm,
          onlyIf (·.isKeyword .ELSE) elseArm,
          expectKeyword .END]).Runs depth s (arms ++ (otherwise ++ e)) s' := by
  obtain ⟨t, _, rfl, ht, rfl⟩ := he
  simp only [reads_forest_append, reads_token, reads_nil] at hreads
  obtain ⟨s₁, hreads₁, s₂, hreads₂, hcurrent, rfl⟩ := hreads
  have hend := State.lookahead_current hcurrent ht
  obtain ⟨-, helse⟩ := hotherwise depth s₁ s₂ hdepth (hreads₁.lawful hs) hreads₂
    ⟨.of_kind hend (by decide), by rw [State.lookahead_eq hend]; rfl⟩
  -- behind the arms there is `ELSE` or `END`
  have hstops : Part.Stops (many .arm) s₁.lookahead := by
    rcases helse.test_or_eq with helse | rfl
    · have hkind : s₁.lookahead.current = .keyword .ELSE := beq_iff_eq.1 helse
      exact ⟨.of_kind hkind (by decide), by rw [State.lookahead_eq hkind]; rfl⟩
    · exact ⟨.of_kind hend (by decide), by rw [State.lookahead_eq hend]; rfl⟩
  obtain ⟨hwhen, hruns⟩ := harms depth s s₁ hdepth hs hreads₁ hstops
  replace hwhen : s.lookahead.isKeyword .WHEN = true := hwhen
  exact ⟨hwhen, .skip (.onlyIf_neg (by rw [hwhen]; rfl))
    (.cons hruns (.cons helse (.last (.expectKeyword hcurrent ht))))⟩

theorem caseWhen {arms otherwise e : Forest} (hf : SpellsWords [.CASE] f)
    (harms : (many .arm).Finds n arms) (hotherwise : (optional .otherwise).Finds n otherwise)
    (he : SpellsWords [.END] e) :
    (operand 11).Finds n [.node .caseExpr (f ++ (arms ++ (otherwise ++ e)))] := by
  intro depth s s' hdepth hs hreads hstops
  obtain ⟨t, _, rfl, ht, rfl⟩ := hf
  rw [reads_node, List.cons_append, List.nil_append] at hreads
  obtain ⟨_, ⟨hcurrent, hreads⟩, rfl⟩ := hreads
  have hv := State.lookahead_current hcurrent ht
  have hnext := State.lookahead_next s
  obtain ⟨hwhen, hruns⟩ := caseArms harms hotherwise he hdepth hs.advance hreads
  have hkind : s.advance.lookahead.current = .keyword .WHEN := beq_iff_eq.1 hwhen
  refine ⟨entersAt_of_kind hv (by decide) (.inl ?_), .look (r := caseExpr) ?_ (.node
    (.cons (.token hcurrent ht rfl) (.skip (.onlyIf_neg ?_) hruns)))⟩
  · rw [hnext]
    exact fun h => by cases hkind.symm.trans h
  · rw [State.lookahead_eq hv]
    rfl
  · rw [State.lookahead_eq hkind]
    rfl

theorem caseOf {arms otherwise e : Forest} (hf : SpellsWords [.CASE] f) (h : inner.Finds n g)
    (harms : (many .arm).Finds n arms) (hotherwise : (optional .otherwise).Finds n otherwise)
    (he : SpellsWords [.END] e) :
    (operand 11).Finds n [.node .caseExpr (f ++ (g ++ (arms ++ (otherwise ++ e))))] := by
  intro depth s s' hdepth hs hreads hstops
  obtain ⟨t, _, rfl, ht, rfl⟩ := hf
  rw [reads_node, List.cons_append, List.nil_append] at hreads
  obtain ⟨_, ⟨hcurrent, hreads⟩, rfl⟩ := hreads
  obtain ⟨s₁, hg, hreads⟩ := reads_forest_append.1 hreads
  have hv := State.lookahead_current hcurrent ht
  have hnext := State.lookahead_next s
  obtain ⟨hwhen, hruns⟩ := caseArms harms hotherwise he hdepth (hg.lawful hs.advance) hreads
  obtain ⟨henters, hinner⟩ := h depth _ s₁ hdepth hs.advance hg
    (.of_kind (beq_iff_eq.1 hwhen) (by decide))
  refine ⟨entersAt_of_kind hv (by decide) (.inl ?_), .look (r := caseExpr) ?_ (.node
    (.cons (.token hcurrent ht rfl) (.cons (.onlyIf_pos ?_ hinner) hruns)))⟩
  · rw [hnext]
    exact henters.ne rfl
  · rw [State.lookahead_eq hv]
    rfl
  · rw [henters.isKeywordIn (by decide)]
    rfl

end Operands

/-! ### Operators -/

section Operators

variable {depth : Nat} {s s' : State} {v : Lookahead}

theorem unary {t : Token} (ht : t.kind.isUnaryOperator = true)
    (h : (operand Level.unary.rank).Finds n f) :
    (operand Level.unary.rank).Finds (n + 1) [.node .unary ([.token t] ++ f)] := by
  intro depth s s' hdepth hs hreads hstops
  simp only [reads_node, reads_forest_append, reads_token, reads_nil] at hreads
  obtain ⟨_, ⟨_, ⟨hcurrent, rfl⟩, hreads⟩, rfl⟩ := hreads
  obtain ⟨-, hruns⟩ := h (depth + 1) _ _ (by omega) hs.advance hreads hstops
  have hunary : s.lookahead.current.isUnaryOperator = true := by
    rw [State.lookahead_current hcurrent rfl]
    exact ht
  refine ⟨?_, .unary (.nested (by omega) hs.advance hruns) hcurrent ht⟩
  generalize s.lookahead = v at hunary
  obtain ⟨current, next, afterNext, word⟩ := v
  cases current <;> first
    | cases hunary; done
    | exact ⟨rfl, by rintro ⟨⟩, by rintro - ⟨⟩, fun h => absurd h (by decide), rfl⟩

theorem collate (h : (operand Level.unary.rank).Finds n f)
    (hnames : (many .collation).Finds n g) :
    (operand Level.collate.rank).Finds n [.node .collate (f ++ g)] := by
  intro depth s s' hdepth hs hreads hstops
  simp only [reads_node, reads_forest_append, reads_nil] at hreads
  obtain ⟨_, ⟨s₁, hf, hg⟩, rfl⟩ := hreads
  obtain ⟨hcomes, hlinks⟩ := hnames depth s₁ _ hdepth (hf.lawful hs) hg
    ⟨trivial, hstops.collation (Nat.le_refl _)⟩
  obtain ⟨henters, hruns⟩ := h depth s s₁ hdepth hs hf (.of_collate hcomes)
  exact ⟨henters.mono (by decide), .chain_go hruns hcomes hlinks⟩

theorem binary {level : Level} (hlevel : level ∈ Level.binaries)
    (h : (operand (level.rank + 1)).Finds n f) (hlinks : (many (.link level)).Finds n g) :
    (operand level.rank).Finds n [.node level.nodeKind (f ++ g)] := by
  intro depth s s' hdepth hs hreads hstops
  simp only [reads_node, reads_forest_append, reads_nil] at hreads
  obtain ⟨_, ⟨s₁, hf, hg⟩, rfl⟩ := hreads
  have hstop : (s'.lookahead.current.operatorLevel? == some level) = false :=
    beq_eq_false_iff_ne.2 fun hsome => Nat.lt_irrefl _ (hstops.operator level hsome)
  obtain ⟨hcomes, hruns'⟩ := hlinks depth s₁ _ hdepth (hf.lawful hs) hg
    ⟨StopsAt.mono hstops (Nat.le_succ _), hstop⟩
  obtain ⟨henters, hruns⟩ := h depth s s₁ hdepth hs hf (.of_operator (beq_iff_eq.1 hcomes))
  refine ⟨EntersAt.mono henters (Nat.le_succ _), ?_⟩
  rw [rule, ofRank_of_binary hlevel]
  exact .chain_go hruns hcomes hruns'

theorem equality (h : (operand (Level.equality.rank + 1)).Finds n f)
    (htests : (many .test).Finds n g) :
    (operand Level.equality.rank).Finds n [.node .equality (f ++ g)] := by
  intro depth s s' hdepth hs hreads hstops
  simp only [reads_node, reads_forest_append, reads_nil] at hreads
  obtain ⟨_, ⟨s₁, hf, hg⟩, rfl⟩ := hreads
  have hstop : (equalityLink? s'.lookahead).isSome = false := by
    rw [hstops.test (Nat.le_refl _)]
    rfl
  obtain ⟨hcomes, hruns'⟩ := htests depth s₁ _ hdepth (hf.lawful hs) hg
    ⟨⟨StopsAt.mono hstops (Nat.le_succ _), hstops.escape (Nat.le_refl _)⟩, hstop⟩
  obtain ⟨henters, hruns⟩ := h depth s s₁ hdepth hs hf (Element.stops_of_comes hcomes).1
  exact ⟨henters.mono (Nat.le_succ _), .chain_go hruns hcomes hruns'⟩

theorem not (hf : SpellsWords [.NOT] f) (h : (operand Level.not.rank).Finds n g) :
    (operand Level.not.rank).Finds (n + 1) [.node .not (f ++ g)] := by
  intro depth s s' hdepth hs hreads hstops
  obtain ⟨t, _, rfl, ht, rfl⟩ := hf
  simp only [reads_node, reads_forest_append, reads_token, reads_nil] at hreads
  obtain ⟨_, ⟨_, ⟨hcurrent, rfl⟩, hreads⟩, rfl⟩ := hreads
  obtain ⟨henters, hruns⟩ := h (depth + 1) _ _ (by omega) hs.advance hreads hstops
  refine ⟨?_, .not (.nested (by omega) hs.advance hruns) hcurrent ht henters⟩
  rw [Enters, State.lookahead_eq (State.lookahead_current hcurrent ht)]
  exact ⟨rfl, by rintro ⟨⟩, fun h => absurd h (by decide), fun h => absurd h (by decide), rfl⟩

/-! ### Inner expressions -/

theorem inner (h : (operand 0).Finds n f) : inner.Finds (n + 1) f := by
  intro depth s s' hdepth hs hreads hstops
  obtain ⟨henters, hruns⟩ := h (depth + 1) s s' (by omega) hs hreads hstops
  exact ⟨henters, .nested (by omega) hs hruns⟩

/-- An inner expression has a token if it is followed by something that begins none. -/
theorem terminals_ne_nil (henters : EntersAt 0 s.lookahead)
    (hreads : Reads (Forest.terminals f) s s') {kind : TokenKind}
    (hkind : s'.lookahead.current = kind) (hends : kind.startsExpression = false) :
    Forest.terminals f ≠ [] := by
  intro hnil
  rw [hnil] at hreads
  obtain rfl : s' = s := hreads
  exact henters.ne hends hkind

theorem item (h : Part.inner.Finds n f) : items.Finds n f := by
  intro depth s s' hdepth hs hreads hstops
  replace hstops : s'.lookahead.current = .rightParen := hstops
  obtain ⟨henters, hruns⟩ := h depth s s' hdepth hs hreads (.of_kind hstops (by decide))
  exact ⟨henters, hruns.expressionList_one hs henters
    (terminals_ne_nil henters hreads hstops rfl) hstops⟩

theorem comma {c : Forest} (h : Part.inner.Finds n f) (hc : Spells [.comma] c)
    (hg : items.Finds n g) : items.Finds n (f ++ (c ++ g)) := by
  intro depth s s' hdepth hs hreads hstops
  obtain ⟨t, _, rfl, ht, rfl⟩ := hc
  simp only [reads_forest_append, reads_token, reads_nil] at hreads
  obtain ⟨s₁, hreads₁, _, ⟨hcurrent, rfl⟩, hreads₂⟩ := hreads
  have hv := State.lookahead_current hcurrent ht
  obtain ⟨henters, hruns⟩ := h depth s s₁ hdepth hs hreads₁ (.of_kind hv (by decide))
  obtain ⟨-, hruns'⟩ := hg depth _ s' hdepth (hreads₁.lawful hs).advance hreads₂ hstops
  exact ⟨henters, .list_more hs (henters.ne rfl) henters.starts hruns
    (terminals_ne_nil henters hreads₁ hv rfl) hcurrent ht hruns'⟩

end Operators

/-! ### What stands behind operands -/

section Elements

variable {depth : Nat} {s s' : State} {v : Lookahead} {words : List Keyword}

theorem link {level : Level} {t : Token} (ht : t.kind.operatorLevel? = some level)
    (h : (operand (level.rank + 1)).Finds n f) :
    (one (.link level)).Finds n ([.token t] ++ f) := by
  intro depth s s' hdepth hs hreads hstops
  obtain ⟨hcurrent, hreads⟩ := hreads
  obtain ⟨-, hruns⟩ := h depth _ s' hdepth hs.advance hreads hstops
  refine ⟨?_, .cons (.shift hcurrent (TokenKind.opensOperand_of_operatorLevel ht).1)
    (.last hruns)⟩
  show (s.lookahead.current.operatorLevel? == some level) = true
  rw [State.lookahead_current hcurrent rfl, ht]
  exact beq_self_eq_true _

theorem collation (hf : Spells [.keyword .COLLATE, .identifier] f) :
    (one .collation).Finds n f := by
  intro depth s s' _ hs hreads _
  obtain ⟨c, _, rfl, hc, name, _, rfl, hname, rfl⟩ := hf
  obtain ⟨hcurrent, hcurrent₁, rfl⟩ := hreads
  have hv := State.lookahead_current hcurrent₁ hname
  refine ⟨beq_iff_eq.2 (State.lookahead_current hcurrent hc), .cons (.token hcurrent hc rfl)
    (.last (.branch_neg ?_ (.branch_pos ?_ (.token hcurrent₁ hname rfl))))⟩
  all_goals
    rw [State.lookahead_eq hv]
    rfl

/-- A test is parsed by its link. -/
theorem test_of_link {r : Rule} (hr : equalityLink? s.lookahead = some r)
    (h : r.Runs depth s f s') :
    (one .test).Enters s.lookahead ∧ (one .test).rule.Runs depth s f s' := by
  refine ⟨?_, .look ?_ h⟩
  · show (equalityLink? s.lookahead).isSome = true
    rw [hr]
    rfl
  · rw [hr]
    rfl

theorem equals {t : Token} (ht : t.kind.operatorLevel? = some .equality)
    (h : (operand (Level.equality.rank + 1)).Finds n f) :
    (one .test).Finds n ([.token t] ++ f) := by
  intro depth s s' hdepth hs hreads hstops
  obtain ⟨hcurrent, hreads⟩ := hreads
  obtain ⟨-, hruns⟩ := h depth _ s' hdepth hs.advance hreads hstops.1
  refine test_of_link (r := all [shift, comparison]) ?_ (.cons (.shift hcurrent
    (TokenKind.opensOperand_of_operatorLevel ht).1) (.last hruns))
  rw [State.lookahead_eq (State.lookahead_current hcurrent rfl)]
  generalize t.kind = kind at ht
  unfold TokenKind.operatorLevel? at ht
  split at ht <;> cases ht <;> rfl

theorem is (hf : SpellsWords words f)
    (hwords : words ∈ [[.IS], [.IS, .NOT], [.IS, .DISTINCT, .FROM], [.IS, .NOT, .DISTINCT, .FROM]])
    (h : (operand (Level.equality.rank + 1)).Finds n g) : (one .test).Finds n (f ++ g) := by
  intro depth s s' hdepth hs hreads hstops
  obtain ⟨s₁, hreads, hreads'⟩ := reads_forest_append.1 hreads
  obtain ⟨henters, hruns⟩ := h depth s₁ s' hdepth (hreads.lawful hs) hreads' hstops.1
  have hnot : s₁.current.kind ≠ .keyword .NOT := henters.notNot (by decide)
  have hdistinct : s₁.lookahead.isKeyword .DISTINCT = false :=
    beq_eq_false_iff_ne.2 (henters.ne rfl)
  have hlink : ∀ {a : Token}, s.current = a → a.kind = .keyword .IS →
      equalityLink? s.lookahead = some (all [shift, eatKeyword .NOT,
        onlyIf (·.isKeyword .DISTINCT) (all [shift, expectKeyword .FROM]), comparison]) := by
    intro a hcurrent ha
    rw [State.lookahead_eq (State.lookahead_current hcurrent ha)]
    rfl
  simp only [List.mem_cons, List.not_mem_nil, or_false] at hwords
  rcases hwords with rfl | rfl | rfl | rfl
  · obtain ⟨a, _, rfl, ha, rfl⟩ := hf
    obtain ⟨hcurrent, rfl⟩ := hreads
    exact test_of_link (hlink hcurrent ha) <| .cons (.token hcurrent ha rfl) <|
      .skip (.eat_neg hnot) <| .skip (.onlyIf_neg hdistinct) <| .last hruns
  · obtain ⟨a, _, rfl, ha, b, _, rfl, hb, rfl⟩ := hf
    obtain ⟨hcurrent, hcurrent₁, rfl⟩ := hreads
    simp only [List.cons_append, List.nil_append]
    exact test_of_link (hlink hcurrent ha) <| .cons (.token hcurrent ha rfl) <|
      .cons (.eatKeyword hcurrent₁ hb) <| .skip (.onlyIf_neg hdistinct) <| .last hruns
  · obtain ⟨a, _, rfl, ha, b, _, rfl, hb, c, _, rfl, hc, rfl⟩ := hf
    obtain ⟨hcurrent, hcurrent₁, hcurrent₂, rfl⟩ := hreads
    have hfrom : s.advance.lookahead.isKeyword .DISTINCT = true :=
      beq_iff_eq.2 (State.lookahead_current hcurrent₁ hb)
    have hnot₁ : s.advance.current.kind ≠ .keyword .NOT := by
      rw [hcurrent₁, hb]
      exact nofun
    simp only [List.cons_append, List.nil_append]
    exact test_of_link (hlink hcurrent ha) <| .cons (.token hcurrent ha rfl) <|
      .skip (.eat_neg hnot₁) <| .cons (.onlyIf_pos hfrom <| .cons (.token hcurrent₁ hb rfl) <|
        .last (.expectKeyword hcurrent₂ hc)) <| .last hruns
  · obtain ⟨a, _, rfl, ha, b, _, rfl, hb, c, _, rfl, hc, d, _, rfl, hd, rfl⟩ := hf
    obtain ⟨hcurrent, hcurrent₁, hcurrent₂, hcurrent₃, rfl⟩ := hreads
    have hfrom : s.advance.advance.lookahead.isKeyword .DISTINCT = true :=
      beq_iff_eq.2 (State.lookahead_current hcurrent₂ hc)
    simp only [List.cons_append, List.nil_append]
    exact test_of_link (hlink hcurrent ha) <| .cons (.token hcurrent ha rfl) <|
      .cons (.eatKeyword hcurrent₁ hb) <| .cons (.onlyIf_pos hfrom <|
        .cons (.token hcurrent₂ hc rfl) <| .last (.expectKeyword hcurrent₃ hd)) <| .last hruns

theorem null (hf : SpellsWords words f) (hwords : words ∈ [[.ISNULL], [.NOTNULL], [.NOT, .NULL]]) :
    (one .test).Finds n f := by
  intro depth s s' hdepth hs hreads hstops
  simp only [List.mem_cons, List.not_mem_nil, or_false] at hwords
  rcases hwords with rfl | rfl | rfl
  · obtain ⟨a, _, rfl, ha, rfl⟩ := hf
    obtain ⟨hcurrent, rfl⟩ := hreads
    exact test_of_link (by rw [State.lookahead_eq (State.lookahead_current hcurrent ha)]; rfl)
      (.token hcurrent ha rfl)
  · obtain ⟨a, _, rfl, ha, rfl⟩ := hf
    obtain ⟨hcurrent, rfl⟩ := hreads
    exact test_of_link (by rw [State.lookahead_eq (State.lookahead_current hcurrent ha)]; rfl)
      (.token hcurrent ha rfl)
  · obtain ⟨a, _, rfl, ha, b, _, rfl, hb, rfl⟩ := hf
    obtain ⟨hcurrent, hcurrent₁, rfl⟩ := hreads
    have hnext := State.lookahead_next s
    rw [hcurrent₁, hb] at hnext
    refine test_of_link (r := all [shift, shift]) ?_
      (.cons (.token hcurrent ha rfl) (.last (.token hcurrent₁ hb rfl)))
    rw [State.lookahead_eq (State.lookahead_current hcurrent ha), hnext]
    rfl

/-- What stands behind an operator that may be negated. -/
def behindOperator : Keyword → List Rule
  | .BETWEEN => [comparison, expectKeyword .AND, comparison]
  | .IN => [inTarget]
  | _ => [comparison, onlyIf (·.isKeyword .ESCAPE) (all [shift, comparison])]

/-- An operator that may be negated is taken with its `NOT`. -/
theorem exists_operator (depth : Nat) {word : Keyword}
    (hword : word ∈ [.BETWEEN, .IN, .LIKE, .GLOB, .REGEXP, .MATCH])
    (hf : SpellsWords words f) (hwords : words ∈ [[word], [.NOT, word]])
    (hreads : Reads (Forest.terminals f) s s') :
    ∃ operator : Rule, operator.Runs depth s f s'
      ∧ equalityLink? s.lookahead = some (all (operator :: behindOperator word)) := by
  simp only [List.mem_cons, List.not_mem_nil, or_false] at hwords
  rcases hwords with rfl | rfl
  · obtain ⟨a, _, rfl, ha, rfl⟩ := hf
    obtain ⟨hcurrent, rfl⟩ := hreads
    refine ⟨shift, .token hcurrent ha rfl, ?_⟩
    rw [State.lookahead_eq (State.lookahead_current hcurrent ha)]
    simp only [List.mem_cons, List.not_mem_nil, or_false] at hword
    rcases hword with rfl | rfl | rfl | rfl | rfl | rfl <;> rfl
  · obtain ⟨a, _, rfl, ha, b, _, rfl, hb, rfl⟩ := hf
    obtain ⟨hcurrent, hcurrent₁, rfl⟩ := hreads
    have hnext := State.lookahead_next s
    rw [hcurrent₁, hb] at hnext
    refine ⟨all [shift, shift], .cons (.token hcurrent ha rfl) (.last (.token hcurrent₁ hb rfl)),
      ?_⟩
    rw [State.lookahead_eq (State.lookahead_current hcurrent ha), hnext]
    simp only [List.mem_cons, List.not_mem_nil, or_false] at hword
    rcases hword with rfl | rfl | rfl | rfl | rfl | rfl <;> rfl

theorem between {a g' : Forest} (hf : SpellsWords words f)
    (hwords : words ∈ [[.BETWEEN], [.NOT, .BETWEEN]])
    (h : (operand (Level.equality.rank + 1)).Finds n g) (ha : SpellsWords [.AND] a)
    (h' : (operand (Level.equality.rank + 1)).Finds n g') :
    (one .test).Finds n (f ++ (g ++ (a ++ g'))) := by
  intro depth s s' hdepth hs hreads hstops
  obtain ⟨t, _, rfl, ht, rfl⟩ := ha
  obtain ⟨s₁, hreads, hreads'⟩ := reads_forest_append.1 hreads
  obtain ⟨s₂, hg, hcurrent, hg'⟩ := reads_forest_append.1 hreads'
  obtain ⟨operator, hoperator, hlink⟩ := exists_operator depth (by decide) hf hwords hreads
  have hlawful := hreads.lawful hs
  obtain ⟨-, hruns⟩ := h depth s₁ s₂ hdepth hlawful hg
    (.of_testKeyword (State.lookahead_current hcurrent ht) (by decide))
  obtain ⟨-, hruns'⟩ := h' depth _ s' hdepth (hg.lawful hlawful).advance hg' hstops.1
  exact test_of_link hlink (.cons hoperator (.cons hruns (.cons (.expectKeyword hcurrent ht)
    (.last hruns'))))

theorem pattern {word : Keyword} {e : Forest} (hword : word ∈ [.LIKE, .GLOB, .REGEXP, .MATCH])
    (hf : SpellsWords words f) (hwords : words ∈ [[word], [.NOT, word]])
    (h : (operand (Level.equality.rank + 1)).Finds n g) (he : (optional .escape).Finds n e) :
    (one .test).Finds n (f ++ (g ++ e)) := by
  intro depth s s' hdepth hs hreads hstops
  obtain ⟨s₁, hreads, hreads'⟩ := reads_forest_append.1 hreads
  obtain ⟨s₂, hg, he'⟩ := reads_forest_append.1 hreads'
  have hlawful := hreads.lawful hs
  obtain ⟨-, hescape⟩ := he depth s₂ s' hdepth (hg.lawful hlawful) he' hstops
  have hstops' : StopsAt 4 s₂.lookahead := by
    rcases hescape.test_or_eq with hcomes | rfl
    · exact .of_testKeyword (beq_iff_eq.1 hcomes) (by decide)
    · exact hstops.1
  obtain ⟨-, hruns⟩ := h depth s₁ s₂ hdepth hlawful hg hstops'
  obtain ⟨operator, hoperator, hlink⟩ := exists_operator depth
    (List.mem_append_right [.BETWEEN, .IN] hword) hf hwords hreads
  have hbehind : behindOperator word = [comparison, (Part.optional .escape).rule] := by
    simp only [List.mem_cons, List.not_mem_nil, or_false] at hword
    rcases hword with rfl | rfl | rfl | rfl <;> rfl
  rw [hbehind] at hlink
  exact test_of_link hlink (.cons hoperator (.cons hruns (.last hescape)))

/-- Membership in what the rule behind `IN` finds. -/
theorem inTarget_of (hf : SpellsWords words f) (hwords : words ∈ [[.IN], [.NOT, .IN]])
    (hs : s.input.Lawful) (hreads : Reads (Forest.terminals (f ++ g)) s s')
    (h : ∀ s₁ : State, s₁.input.Lawful → Reads (Forest.terminals g) s₁ s' →
      inTarget.Runs depth s₁ g s') :
    (one .test).Enters s.lookahead ∧ (one .test).rule.Runs depth s (f ++ g) s' := by
  obtain ⟨s₁, hreads, hreads'⟩ := reads_forest_append.1 hreads
  obtain ⟨operator, hoperator, hlink⟩ := exists_operator depth (by decide) hf hwords hreads
  exact test_of_link hlink (.cons hoperator (.last (h s₁ (hreads.lawful hs) hreads')))

theorem inNothing (hf : SpellsWords words f) (hwords : words ∈ [[.IN], [.NOT, .IN]])
    (hg : Spells [.leftParen, .rightParen] g) :
    (one .test).Finds n (f ++ [.node .parenthesized g]) := by
  intro depth s s' hdepth hs hreads hstops
  refine inTarget_of hf hwords hs hreads fun s₁ hs₁ hreads' => ?_
  obtain ⟨lp, _, rfl, hlp, rp, _, rfl, hrp, rfl⟩ := hg
  simp only [reads_node, reads_token, reads_nil] at hreads'
  obtain ⟨_, ⟨hcurrent, hcurrent₁, rfl⟩, rfl⟩ := hreads'
  have hnext := State.lookahead_next s₁
  rw [hcurrent₁, hrp] at hnext
  refine .look (by rw [State.lookahead_eq (State.lookahead_current hcurrent hlp), hnext]; rfl)
    (.node (.cons (.token hcurrent hlp rfl) (.skip (.onlyIf_neg ?_)
      (.last (.closeParen hcurrent₁ hrp)))))
  rw [State.lookahead_eq (State.lookahead_current hcurrent₁ hrp)]
  rfl

theorem inItems {a e : Forest} (hf : SpellsWords words f)
    (hwords : words ∈ [[.IN], [.NOT, .IN]]) (ha : Spells [.leftParen] a) (h : items.Finds n g)
    (he : Spells [.rightParen] e) :
    (one .test).Finds n (f ++ [.node .parenthesized (a ++ (g ++ e))]) := by
  intro depth s s' hdepth hs hreads hstops
  refine inTarget_of hf hwords hs hreads fun s₁ hs₁ hreads' => ?_
  obtain ⟨lp, _, rfl, hlp, rfl⟩ := ha
  obtain ⟨rp, _, rfl, hrp, rfl⟩ := he
  simp only [reads_node, reads_forest_append, reads_token, reads_nil] at hreads'
  obtain ⟨_, ⟨_, ⟨hcurrent, rfl⟩, s₂, hg, hcurrent₁, rfl⟩, rfl⟩ := hreads'
  have hnext := State.lookahead_next s₁
  obtain ⟨henters, hruns⟩ := h depth _ s₂ hdepth hs₁.advance hg
    (State.lookahead_current hcurrent₁ hrp)
  have hselect : s₁.lookahead.nextIsKeyword .SELECT = false := by
    rw [Lookahead.nextIsKeyword, hnext, beq_eq_false_iff_ne]
    exact henters.ne rfl
  have hv := State.lookahead_current hcurrent hlp
  refine .look ((if_pos (beq_iff_eq.2 hv)).trans (if_neg (Bool.eq_false_iff.1 hselect))) <|
    .node <| .cons (.token hcurrent hlp rfl) <| .cons (.onlyIf_pos ?_ hruns) <|
      .last (.closeParen hcurrent₁ hrp)
  rw [Bool.not_eq_true']
  exact beq_eq_false_iff_ne.2 (henters.ne rfl)

theorem inTable {table : Forest} (hf : SpellsWords words f)
    (hwords : words ∈ [[.IN], [.NOT, .IN]]) (htable : Spells [.identifier] table) :
    (one .test).Finds n (f ++ [.node .tableName table]) := by
  intro depth s s' hdepth hs hreads hstops
  refine inTarget_of hf hwords hs hreads fun s₁ hs₁ hreads' => ?_
  obtain ⟨t, _, rfl, ht, rfl⟩ := htable
  simp only [reads_node, reads_token, reads_nil] at hreads'
  obtain ⟨_, ⟨hcurrent, rfl⟩, rfl⟩ := hreads'
  have hnext := State.lookahead_next s₁
  have hdot : s₁.lookahead.nextIs .dot = false := by
    rw [Lookahead.nextIs, hnext, beq_eq_false_iff_ne]
    exact hstops.1.dot
  refine .look (by rw [State.lookahead_eq (State.lookahead_current hcurrent ht)]; rfl)
    (.skip (.onlyIf_neg ?_) (.last (.name hcurrent ht)))
  rw [hdot, Bool.and_false]

theorem inSchema {schema dot table : Forest} (hf : SpellsWords words f)
    (hwords : words ∈ [[.IN], [.NOT, .IN]]) (hschema : Spells [.identifier] schema)
    (hdot : Spells [.dot] dot) (htable : Spells [.identifier] table) :
    (one .test).Finds n
      (f ++ ([.node .schemaName schema] ++ (dot ++ [.node .tableName table]))) := by
  intro depth s s' hdepth hs hreads hstops
  refine inTarget_of hf hwords hs hreads fun s₁ hs₁ hreads' => ?_
  obtain ⟨a, _, rfl, ha, rfl⟩ := hschema
  obtain ⟨d, _, rfl, hd, rfl⟩ := hdot
  obtain ⟨t, _, rfl, ht, rfl⟩ := htable
  simp only [reads_node, reads_forest_append, reads_token, reads_nil] at hreads'
  obtain ⟨_, ⟨_, ⟨hcurrent, rfl⟩, rfl⟩, _, ⟨hcurrent₁, rfl⟩, _, ⟨hcurrent₂, rfl⟩, rfl⟩ := hreads'
  have hv := State.lookahead_current hcurrent ha
  have hnext := State.lookahead_next s₁
  rw [hcurrent₁, hd] at hnext
  have hqualified : (onlyIf (fun v => v.isName && v.nextIs .dot)
      (all [node .schemaName shift, shift])).Runs depth s₁
        [.node .schemaName [.token a], .token d] s₁.advance.advance := by
    refine .onlyIf_pos ?_ (.cons (.node (.token hcurrent ha rfl)) (.last (.token hcurrent₁ hd rfl)))
    rw [State.lookahead_eq hv, hnext]
    rfl
  rw [← List.append_assoc]
  exact .look (by rw [State.lookahead_eq hv]; rfl)
    (.cons hqualified (.last (.name hcurrent₂ ht)))

theorem escape (hf : SpellsWords [.ESCAPE] f) (h : (operand (Level.equality.rank + 1)).Finds n g) :
    (one .escape).Finds n (f ++ g) := by
  intro depth s s' hdepth hs hreads hstops
  obtain ⟨t, _, rfl, ht, rfl⟩ := hf
  obtain ⟨hcurrent, hreads⟩ := hreads
  obtain ⟨-, hruns⟩ := h depth _ s' hdepth hs.advance hreads hstops
  exact ⟨beq_iff_eq.2 (State.lookahead_current hcurrent ht),
    .cons (.token hcurrent ht rfl) (.last hruns)⟩

theorem arm {t g' : Forest} (hf : SpellsWords [.WHEN] f) (h : Part.inner.Finds n g)
    (ht : SpellsWords [.THEN] t) (h' : Part.inner.Finds n g') :
    (one .arm).Finds n [.node .whenArm (f ++ (g ++ (t ++ g')))] := by
  intro depth s s' hdepth hs hreads hstops
  obtain ⟨w, _, rfl, hw, rfl⟩ := hf
  obtain ⟨t, _, rfl, ht, rfl⟩ := ht
  simp only [reads_node, reads_forest_append, reads_token, reads_nil] at hreads
  obtain ⟨_, ⟨_, ⟨hcurrent, rfl⟩, s₁, hg, _, ⟨hcurrent₁, rfl⟩, hg'⟩, rfl⟩ := hreads
  obtain ⟨-, hruns⟩ := h depth _ s₁ hdepth hs.advance hg
    (.of_kind (State.lookahead_current hcurrent₁ ht) (by decide))
  obtain ⟨-, hruns'⟩ := h' depth _ _ hdepth (hg.lawful hs.advance).advance hg' hstops
  exact ⟨beq_iff_eq.2 (State.lookahead_current hcurrent hw), .node (.cons (.token hcurrent hw rfl)
    (.cons hruns (.cons (.expectKeyword hcurrent₁ ht) (.last hruns'))))⟩

theorem otherwise (hf : SpellsWords [.ELSE] f) (h : Part.inner.Finds n g) :
    (one .otherwise).Finds n [.node .elseArm (f ++ g)] := by
  intro depth s s' hdepth hs hreads hstops
  obtain ⟨t, _, rfl, ht, rfl⟩ := hf
  simp only [reads_node, reads_forest_append, reads_token, reads_nil] at hreads
  obtain ⟨_, ⟨_, ⟨hcurrent, rfl⟩, hg⟩, rfl⟩ := hreads
  obtain ⟨-, hruns⟩ := h depth _ _ hdepth hs.advance hg hstops
  exact ⟨beq_iff_eq.2 (State.lookahead_current hcurrent ht),
    .node (.cons (.token hcurrent ht rfl) (.last hruns))⟩

/-! ### Repetition -/

/-- An element that comes next takes a token first. -/
theorem takesFirst_of_comes {element : Element} (h : element.comes v = true) :
    element.rule.TakesFirst v := by
  cases element with
  | link level => exact .inl (TokenKind.opensOperand_of_operatorLevel (beq_iff_eq.1 h)).1
  | test => exact takesFirst_equalityLink h
  | _ => exact .inl (isTakeable_of_isKeyword h)

theorem last {element : Element} (h : (one element).Finds n f) : (many element).Finds n f := by
  intro depth s s' hdepth hs hreads hstops
  obtain ⟨hcomes, hruns⟩ := h depth s s' hdepth hs hreads hstops.1
  have hless := hruns.remaining_lt_of_takesFirst hs (takesFirst_of_comes hcomes)
  have hloop := Runs.loop_more hcomes hruns hless (.loop_stop hstops.2)
  rw [List.append_nil] at hloop
  exact ⟨hcomes, hloop⟩

theorem more {element : Element} (h : (one element).Finds n f) (hg : (many element).Finds n g) :
    (many element).Finds n (f ++ g) := by
  intro depth s s' hdepth hs hreads hstops
  obtain ⟨s₁, hreads, hreads'⟩ := reads_forest_append.1 hreads
  obtain ⟨hcomes', hloop⟩ := hg depth s₁ s' hdepth (hreads.lawful hs) hreads' hstops
  obtain ⟨hcomes, hruns⟩ := h depth s s₁ hdepth hs hreads (Element.stops_of_comes hcomes')
  have hless := hruns.remaining_lt_of_takesFirst hs (takesFirst_of_comes hcomes)
  exact ⟨hcomes, .loop_more hcomes hruns hless hloop⟩

theorem absent {element : Element} : (optional element).Finds n [] := by
  intro depth s s' _ _ hreads hstops
  obtain rfl : s' = s := hreads
  exact ⟨trivial, .onlyIf_neg hstops.2⟩

theorem present {element : Element} (h : (one element).Finds n f) :
    (optional element).Finds n f := by
  intro depth s s' hdepth hs hreads hstops
  obtain ⟨hcomes, hruns⟩ := h depth s s' hdepth hs hreads hstops.1
  exact ⟨trivial, .onlyIf_pos hcomes hruns⟩

end Elements

end Part.Finds

/-- **Every phrase is found** where its tokens come next. -/
theorem Phrase.finds {part : Part} {n : Nat} {f : Forest} (h : Phrase part n f) :
    part.Finds n f := by
  induction h with
  | loosen _ ih => exact .loosen ih
  | literal h => exact .literal h
  | column hf hkinds => exact .column hf hkinds
  | parenthesized hf _ he ih => exact .parenthesized hf ih he
  | call hf hkinds => exact .call hf hkinds
  | callWith hf hkinds _ he ih => exact .callWith hf hkinds ih he
  | cast hf _ ha hnames he ih => exact .cast hf ih ha hnames he
  | caseWhen hf _ _ he ih ih' => exact .caseWhen hf ih ih' he
  | caseOf hf _ _ _ he ih ih₁ ih₂ => exact .caseOf hf ih ih₁ ih₂ he
  | unary ht _ ih => exact .unary ht ih
  | collate _ _ ih ih' => exact .collate ih ih'
  | binary hlevel _ _ ih ih' => exact .binary hlevel ih ih'
  | equality _ _ ih ih' => exact .equality ih ih'
  | not hf _ ih => exact .not hf ih
  | inner _ ih => exact .inner ih
  | item _ ih => exact .item ih
  | comma _ hc _ ih ih' => exact .comma ih hc ih'
  | link ht _ ih => exact .link ht ih
  | collation hf => exact .collation hf
  | equals ht _ ih => exact .equals ht ih
  | is hf hwords _ ih => exact .is hf hwords ih
  | null hf hwords => exact .null hf hwords
  | between hf hwords _ ha _ ih ih' => exact .between hf hwords ih ha ih'
  | pattern hword hf hwords _ _ ih ih' => exact .pattern hword hf hwords ih ih'
  | inNothing hf hwords hg => exact .inNothing hf hwords hg
  | inItems hf hwords ha _ he ih => exact .inItems hf hwords ha ih he
  | inTable hf hwords htable => exact .inTable hf hwords htable
  | inSchema hf hwords hschema hdot htable => exact .inSchema hf hwords hschema hdot htable
  | escape hf _ ih => exact .escape hf ih
  | arm hf _ ht _ ih ih' => exact .arm hf ih ht ih'
  | otherwise hf _ ih => exact .otherwise hf ih
  | last _ ih => exact .last ih
  | more _ _ ih ih' => exact .more ih ih'
  | absent => exact .absent
  | present _ ih => exact .present ih

end TolerantSql
