import TolerantSql.Proofs.RuleRuns
import TolerantSql.Proofs.SkippedTokens

/-!
# Where statements end

A semicolon ends a statement and nothing else: it stands behind everything else that
the statement holds, and so does the end of the input. No step of a rule takes either
of them (`Took.inside`), and a statement takes the one it comes to when its rule is
done.

Both are earned where tokens are taken. A skip stops at the tokens that its site asks
for and at no others; that a semicolon is one of them is shown of each site, and makes
what it asks for a `StopSet`. A token that a rule takes is one that the rule has seen to
be another, so that the care of `State.shift` is never called for
(`State.unfoldsStatement_iff`).

One kind of statement ends otherwise. Where a statement should begin and does not,
tokens are skipped up to a keyword that begins one, and the keyword is left for the
next statement. Such a statement has an error and what was skipped, and before them
at most the words that ask for an explanation.
-/

namespace TolerantSql

/-- **The token that ends a statement**, if the root ends with one. -/
def Statement.terminator? (s : Statement) : Option Token :=
  match s.children.getLast? with
  | some (.token t) => if t.kind.endsStatement then some t else none
  | _ => none

/-- **The words before a statement that is to be explained**, or none of them. Without
its last word, `EXPLAIN QUERY PLAN` is reported as incomplete. -/
inductive Forest.ExplainWords : Forest → Prop where
  | nothing : ExplainWords []
  | explain {t : Token} (h : t.kind = .keyword .EXPLAIN) : ExplainWords [.token t]
  | plan {t query plan : Token} (h : t.kind = .keyword .EXPLAIN)
    (hquery : query.kind = .keyword .QUERY) (hplan : plan.kind = .keyword .PLAN) :
    ExplainWords [.token t, .token query, .token plan]
  | noPlan {t query : Token} (h : t.kind = .keyword .EXPLAIN)
    (hquery : query.kind = .keyword .QUERY) :
    ExplainWords [.token t, .token query, .error (.missing "missing PLAN")]

/-! ## How the trees of a statement end -/

namespace State

variable {s : State}

theorem forest_missing (hend : s.atEof = false) (announced : Bool) (what : String) :
    (s.missing announced what).forest = [.error (.missing ("missing " ++ what))] := by
  rw [missing, hend, if_neg Bool.false_ne_true]
  rfl

/-- **The words before a statement**: none, the first, all three, or the first two and a
report that the third is missing. -/
theorem explain_runs (s : State) :
    s.current.kind ≠ .keyword .EXPLAIN ∧ Rule.explain.Runs 0 s [] s
      ∨ s.current.kind = .keyword .EXPLAIN
        ∧ (s.advance.current.kind ≠ .keyword .QUERY
            ∧ Rule.explain.Runs 0 s [.token s.current] s.advance
          ∨ s.advance.current.kind = .keyword .QUERY
            ∧ (s.advance.advance.current.kind = .keyword .PLAN
                ∧ Rule.explain.Runs 0 s [.token s.current, .token s.advance.current,
                  .token s.advance.advance.current] s.advance.advance.advance
              ∨ s.advance.advance.current.kind ≠ .keyword .PLAN
                ∧ Rule.explain.Runs 0 s (.token s.current :: .token s.advance.current
                  :: (s.advance.advance.missing true "PLAN").forest)
                  (s.advance.advance.missing true "PLAN").state)) := by
  have hpos {s : State} {word : Keyword} (h : s.current.kind = .keyword word) :
      s.lookahead.isKeyword word = true := beq_iff_eq.2 h
  have hneg {s : State} {word : Keyword} (h : s.current.kind ≠ .keyword word) :
      s.lookahead.isKeyword word = false := beq_eq_false_iff_ne.2 h
  by_cases hexplain : s.current.kind = .keyword .EXPLAIN
  · refine .inr ⟨hexplain, ?_⟩
    have htoken : Rule.shift.Runs 0 s [.token s.current] s.advance := .token rfl hexplain rfl
    by_cases hquery : s.advance.current.kind = .keyword .QUERY
    · -- what comes of `PLAN` is added behind the two words before it
      have hruns {f : Forest} {s' : State}
          (hplan : (Rule.expectKeyword .PLAN).Runs 0 s.advance.advance f s') :
          Rule.explain.Runs 0 s (.token s.current :: .token s.advance.current :: f) s' :=
        .onlyIf_pos (hpos hexplain) <| .cons htoken <| .last <|
          .onlyIf_pos (hpos hquery) <| .cons (.token rfl hquery rfl) <| .last hplan
      by_cases hplan : s.advance.advance.current.kind = .keyword .PLAN
      · exact .inr ⟨hquery, .inl ⟨hplan, hruns (.expectKeyword rfl hplan)⟩⟩
      · exact .inr ⟨hquery, .inr ⟨hplan, hruns (.branch_neg (hneg hplan) rfl)⟩⟩
    · exact .inl ⟨hquery,
        .onlyIf_pos (hpos hexplain) (.keep htoken (.last (.onlyIf_neg (hneg hquery))))⟩
  · exact .inl ⟨hexplain, .onlyIf_neg (hneg hexplain)⟩

/-- The words before a statement, unless the input ends with them. -/
theorem explainWords_explain (hend : (Rule.explain.parse s).state.atEof = false) :
    (Rule.explain.parse s).forest.ExplainWords := by
  rw [Rule.parse] at hend ⊢
  obtain ⟨-, hruns⟩ | ⟨hexplain, ⟨-, hruns⟩ | ⟨hquery, ⟨hplan, hruns⟩ | ⟨-, hruns⟩⟩⟩ :=
    explain_runs s
  · rw [hruns]
    exact .nothing
  · rw [hruns]
    exact .explain hexplain
  · rw [hruns]
    exact .plan hexplain hquery hplan
  · rw [hruns] at hend ⊢
    dsimp only at hend
    rw [atEof, (Took.missing _ true "PLAN").current_eq] at hend
    rw [forest_missing hend]
    exact .noPlan hexplain hquery

/-- **How the trees of a statement end**: with the token that ends it, or before a keyword
that begins the next one, behind an error and what was skipped. -/
theorem forest_statement_cases (hs : s.input.Lawful) :
    (∃ front t, s.statement.forest = front ++ [.token t] ∧ t.kind.endsStatement = true
        ∧ ∀ t ∈ Forest.terminals front, t.kind.endsStatement = false)
      ∨ s.statement.state.current.kind.startsStatement = true
        ∧ (∀ t ∈ Forest.terminals s.statement.forest, t.kind.endsStatement = false)
        ∧ ∃ words skipped : Forest,
          s.statement.forest = words ++ .error (.expecting "expecting statement") :: skipped
            ∧ words.ExplainWords ∧ (skipped = [] ∨ ∃ f, skipped = [.node .skipped f]) := by
  have hinside {taken : List Lexeme} {s : State} {out : Outcome} (htook : Took taken s out) :
      ∀ t ∈ Forest.terminals out.forest, t.kind.endsStatement = false := by
    intro t ht
    rw [htook.terminals] at ht
    obtain ⟨l, hl, rfl⟩ := List.mem_map.1 ht
    exact htook.inside l hl
  obtain ⟨taken, htook⟩ := Took.rule Rule.explain hs
  have hlawful := htook.lawful hs
  rcases body_cases hlawful (s.lookahead.isKeyword .EXPLAIN) with
    hclosed | ⟨hbody, -, hend, hstop⟩
  · obtain ⟨first, taken', hfirst, hend, hout⟩ := Closes.after htook hclosed
    replace hout : s.statement = first.andThen take := hout
    rw [hout]
    exact .inl ⟨first.forest, first.state.current, rfl, hend, hinside hfirst⟩
  · -- behind the words nothing was taken but what recovery skips
    have hstatement : s.statement = (Rule.explain.parse s).andThen
        (recover false "expecting statement" .statement) :=
      Outcome.andThen_congr hbody
    have heof := atEof_eq_false hend
    have hrecover := Took.recover hlawful false "expecting statement" .statement
    have hcurrent := current_recover hlawful false "expecting statement" .statement
    obtain ⟨skipped, hforest, hskipped⟩ :=
      forest_recover hlawful heof false "expecting statement" .statement
    rw [hbody] at hstop
    rw [hstatement]
    refine .inr ⟨?_, hinside (htook.andThen hrecover), _, skipped, ?_,
      explainWords_explain heof, ?_⟩
    · -- it did not stop at the end of the statement, so a keyword made it stop
      have hstarts := hcurrent.resolve_right fun heof =>
        Bool.false_ne_true (hstop.symm.trans (atEnd_of_atEof heof))
      exact ((Bool.or_eq_true _ _).mp hstarts).resolve_right fun hend =>
        Bool.false_ne_true (hstop.symm.trans hend)
    · rw [Outcome.andThen, hforest]
    · exact hskipped.imp_right fun h => h.imp fun _ => And.left

end State

/-! ## The token that ends a statement -/

namespace Statement

variable {s : Statement}

theorem terminator?_of_concat {front : Forest} {t : Token} (h : s.children = front ++ [.token t])
    (ht : t.kind.endsStatement = true) : s.terminator? = some t := by
  unfold terminator?
  rw [h, List.getLast?_concat]
  exact if_pos ht

theorem terminator?_eq_none
    (h : ∀ t ∈ Forest.terminals s.children, t.kind.endsStatement = false) :
    s.terminator? = none := by
  unfold terminator?
  split
  · next t hlast =>
    have hleaf : Leaf.token t ∈ Forest.leaves s.children :=
      Forest.mem_leaves.2 ⟨_, List.mem_of_getLast? hlast, List.mem_singleton_self _⟩
    rw [h t (List.mem_filterMap.2 ⟨_, hleaf, rfl⟩), if_neg Bool.false_ne_true]
  · rfl

/-- **What a statement holds before the token that ends it** is inside the statement. -/
def EndsProperly (s : Statement) : Prop :=
  ∃ front, s.children = front ++ s.terminator?.toList.map Tree.token
    ∧ ∀ t ∈ Forest.terminals front, t.kind.endsStatement = false

/-- The tokens of a kind that ends statements are those that end the statement. -/
theorem EndsProperly.countP_terminals (h : s.EndsProperly) {p : Token → Bool}
    (hp : ∀ t, p t = true → t.kind.endsStatement = true) :
    s.tree.terminals.countP p = if s.terminator?.any p then 1 else 0 := by
  obtain ⟨front, hchildren, hinside⟩ := h
  have hfront : (Forest.terminals front).countP p = 0 := by
    refine List.countP_eq_zero.2 fun t ht hpt => ?_
    exact Bool.false_ne_true ((hinside t ht).symm.trans (hp t hpt))
  show (Forest.terminals s.children).countP p = _
  rw [hchildren, Took.terminals_append, List.countP_append, hfront, Nat.zero_add]
  cases s.terminator? with
  | none => rfl
  | some t => exact List.countP_singleton

end Statement

/-! ## Statements of a stream -/

/-- **How the statement at the front of a stream ends.** Without a token that ends it, it
holds an error and what was skipped, and a keyword that begins a statement is left. -/
theorem TokenStream.parseStatement_ends {input : TokenStream} (h : input.Lawful) :
    input.parseStatement.statement.EndsProperly
      ∧ (input.parseStatement.statement.terminator? = none →
        input.parseStatement.rest.current.token.kind.startsStatement = true
        ∧ ∃ words skipped : Forest, input.parseStatement.statement.children
            = words ++ .error (.expecting "expecting statement") :: skipped
          ∧ words.ExplainWords ∧ (skipped = [] ∨ ∃ f, skipped = [.node .skipped f])) := by
  have hs : (State.start input).input.Lawful := h
  have hchildren : input.parseStatement.statement.children
      = (State.start input).statement.forest := rfl
  rcases State.forest_statement_cases hs with
    ⟨front, t, hforest, ht, hinside⟩ | ⟨hcurrent, hinside, hopen⟩
  · have hterminator := Statement.terminator?_of_concat (hchildren.trans hforest) ht
    rw [Statement.EndsProperly, hterminator, hchildren]
    exact ⟨⟨front, hforest, hinside⟩, fun h => absurd h (Option.some_ne_none t)⟩
  · have hterminator := Statement.terminator?_eq_none (hchildren ▸ hinside)
    rw [Statement.EndsProperly, hterminator, hchildren]
    exact ⟨⟨_, (List.append_nil _).symm, hinside⟩, fun _ => ⟨hcurrent, hopen⟩⟩

/-- A keyword that begins a statement is one of six. -/
theorem TokenKind.exists_of_startsStatement {kind : TokenKind} (h : kind.startsStatement = true) :
    ∃ word ∈ statementKeywords, kind = .keyword word := by
  cases kind with
  | keyword word => exact ⟨word, List.contains_iff_mem.1 h, rfl⟩
  | _ => cases h

/-- Where a keyword begins a statement, there is a statement. -/
theorem TokenStream.isAtEnd_of_startsStatement {input : TokenStream} (h : input.Lawful)
    (hstarts : input.current.token.kind.startsStatement = true) : input.isAtEnd = false := by
  have hend : (State.start input).atEnd = false := by
    obtain ⟨word, -, hword⟩ := TokenKind.exists_of_startsStatement hstarts
    show input.current.token.kind.endsStatement = false
    rw [hword]
    rfl
  obtain ⟨l, rest, hpending⟩ := State.exists_pending h hend
  replace hpending : input.pending = l :: rest := hpending
  rw [isAtEnd, hpending]
  rfl

/-! ## Semicolons -/

/-- What is counted in each part is counted in all of them together. -/
theorem countP_flatMap_of_indicator {α β : Type} {f : α → List β} {p : β → Bool}
    {q : α → Bool} {l : List α} (h : ∀ a ∈ l, (f a).countP p = if q a then 1 else 0) :
    (l.flatMap f).countP p = l.countP q := by
  induction l with
  | nil => rfl
  | cons a l ih =>
    obtain ⟨ha, hl⟩ := List.forall_mem_cons.1 h
    rw [List.flatMap_cons, List.countP_append, ha, ih hl, List.countP_cons, Nat.add_comm]

/-- The semicolons of the statements are those of the source. -/
theorem countP_semicolon_terminals (source : String) :
    ((parse source).flatMap (·.tree.terminals)).countP (·.kind == .semicolon)
      = (tokenize source).countP (·.kind == .semicolon) := by
  obtain ⟨tail, htail, hall⟩ :=
    TokenStream.terminals_parseAll (TokenStream.lawful_ofSource source)
  have hnone : tail.countP (·.kind == .semicolon) = 0 := by
    rcases htail with rfl | rfl
    · rfl
    · obtain ⟨offset, hlast⟩ := TokenStream.last_ofSource source
      rw [hlast]
      rfl
  rw [parse, List.flatMap_map, hall, List.countP_append, hnone, Nat.add_zero,
    TokenStream.pending_ofSource, List.countP_filter]
  -- a semicolon is a significant token
  refine List.countP_congr fun t _ => ?_
  rw [Bool.and_eq_true]
  refine and_iff_left_of_imp fun ht => ?_
  unfold Token.isSignificant Token.isEof
  rw [beq_iff_eq.1 ht]
  rfl

/-- **Statements end with a semicolon or the end of the input**, and hold neither anywhere
else. A statement that ends with neither holds an error and what was skipped, behind
at most the words that ask for an explanation, and a statement comes behind it that
begins with a keyword. So there are as many statements that end with a semicolon as
there are semicolons in the source. -/
theorem parse_boundaries (source : String) :
    (∀ i s, (parse source)[i]? = some s →
      (∃ front, s.children = front ++ s.terminator?.toList.map Tree.token
        ∧ ∀ t ∈ Forest.terminals front, t.kind.endsStatement = false)
      ∧ s.tree.terminals.countP (·.kind.endsStatement) ≤ 1
      ∧ (s.terminator? = none →
        (∃ words skipped : Forest,
          s.children = words ++ .error (.expecting "expecting statement") :: skipped
          ∧ words.ExplainWords ∧ (skipped = [] ∨ ∃ f, skipped = [.node .skipped f]))
        ∧ ∃ next t, (parse source)[i + 1]? = some next ∧ next.tree.terminals.head? = some t
          ∧ ∃ word ∈ [.EXPLAIN, .ALTER, .SELECT, .ANALYZE, .ATTACH, .BEGIN],
            t.kind = .keyword word))
    ∧ (parse source).countP (fun s => s.terminator?.any (·.kind == .semicolon))
      = (tokenize source).countP (·.kind == .semicolon) := by
  have hlawful := TokenStream.lawful_ofSource source
  refine ⟨fun i s hi => ?_, ?_⟩
  · rw [parse, List.getElem?_map, Option.map_eq_some_iff] at hi
    obtain ⟨parsed, hi, rfl⟩ := hi
    obtain ⟨input, hinput, rfl, hbehind⟩ := TokenStream.exists_of_getElem?_parseAll hlawful hi
    obtain ⟨hends, hopen⟩ := TokenStream.parseStatement_ends hinput
    refine ⟨hends, ?_, fun hnone => ?_⟩
    · rw [hends.countP_terminals fun _ h => h]
      split <;> omega
    · obtain ⟨hstarts, hforest⟩ := hopen hnone
      have hrest := TokenStream.lawful_parseStatement hinput
      -- the keyword is left, so there is a statement behind, and it begins with it
      have hmore := TokenStream.isAtEnd_of_startsStatement hrest hstarts
      have hnext : (TokenStream.ofSource source).parseAll[i + 1]?
          = some input.parseStatement.rest.parseStatement := by
        rw [← List.head?_drop, ← hbehind, TokenStream.parseAll_cons hrest hmore]
        rfl
      refine ⟨hforest, _, _, ?_, TokenStream.head?_terminals_parseStatement hrest,
        TokenKind.exists_of_startsStatement hstarts⟩
      rw [parse, List.getElem?_map, hnext]
      rfl
  · rw [← countP_semicolon_terminals]
    refine (countP_flatMap_of_indicator fun s hs => ?_).symm
    obtain ⟨parsed, hparsed, rfl⟩ := List.mem_map.1 hs
    obtain ⟨input, hinput, -, -, rfl⟩ := TokenStream.exists_of_mem_parseAll hlawful hparsed
    refine (TokenStream.parseStatement_ends hinput).1.countP_terminals fun t ht => ?_
    rw [beq_iff_eq.1 ht]
    rfl

/-- Behind `EXPLAIN QUERY`, what is no statement is skipped, and the `SELECT` that comes
next begins another statement. -/
theorem parse_boundaries_explain :
    ∃ s next t, (parse "EXPLAIN QUERY 1 2 SELECT a;")[0]? = some s ∧ s.terminator? = none
      ∧ (∃ words skipped : Forest,
        s.children = words ++ .error (.expecting "expecting statement") :: skipped
        ∧ words.ExplainWords ∧ (skipped = [] ∨ ∃ f, skipped = [.node .skipped f]))
      ∧ (parse "EXPLAIN QUERY 1 2 SELECT a;")[1]? = some next
      ∧ next.tree.terminals.head? = some t
      ∧ (parse "EXPLAIN QUERY 1 2 SELECT a;").countP
          (fun s => s.terminator?.any (·.kind == .semicolon))
        = (tokenize "EXPLAIN QUERY 1 2 SELECT a;").countP (·.kind == .semicolon) := by
  have hopen : ((parse "EXPLAIN QUERY 1 2 SELECT a;")[0]?.any fun s => s.terminator?.isNone)
      = true := by
    decide +kernel
  obtain ⟨s, hs, hnone⟩ := (Option.any_eq_true _ _).1 hopen
  obtain ⟨hall, hcount⟩ := parse_boundaries "EXPLAIN QUERY 1 2 SELECT a;"
  have hterminator := Option.isNone_iff_eq_none.1 hnone
  obtain ⟨hforest, next, t, hnext, hhead, -⟩ := (hall 0 s hs).2.2 hterminator
  exact ⟨s, next, t, hs, hterminator, hforest, hnext, hhead, hcount⟩

end TolerantSql
