import TolerantSql.Proofs.PhraseRuns
import TolerantSql.Proofs.RoundTrip
import TolerantSql.Proofs.TreeNodes

/-!
# Statements from given tokens

What is known of the runs of rules on given tokens is carried over to statements and
to source texts. A query of one column is parsed where its expression is found
(`TokenStream.parseStatement_select`), and an accepted statement is read back from
the text its tokens are written as, whether or not the tokens were read from a
source to begin with (`TokenStream.exists_parse_toSource`).
-/

namespace TolerantSql

open Rule

/-- Tokens at the front of a stream come next. -/
theorem exists_reads (s : State) (ts us : List Token)
    (h : s.input.pending.map Lexeme.token = ts ++ us) :
    ∃ s', Reads ts s s' ∧ s'.input.pending.map Lexeme.token = us
      ∧ s'.input.last = s.input.last := by
  induction ts generalizing s with
  | nil => exact ⟨s, rfl, h, rfl⟩
  | cons t ts ih =>
    obtain ⟨l, rest, hpending, hl, hrest⟩ := List.map_eq_cons_iff.1 h
    have hadvance : s.advance.input = ⟨rest, s.input.last⟩ := TokenStream.advance_cons hpending
    obtain ⟨s', hreads, hus, hlast⟩ := ih s.advance (by rw [hadvance, hrest]; rfl)
    refine ⟨s', ⟨?_, hreads⟩, hus, hlast.trans (by rw [hadvance])⟩
    rw [State.current, TokenStream.current_cons hpending, hl]

/-- What is current where certain tokens are to come. -/
theorem State.current_eq {s : State} {closing : List Token}
    (h : s.input.pending.map Lexeme.token = closing) :
    s.current = closing.head?.getD s.input.last.token := by
  subst h
  rw [current, TokenStream.current]
  cases s.input.pending <;> rfl

/-- **A statement is what its rule adds**, and the token that ends it. -/
theorem statement_of_runs {s s' : State} {rule : Rule} {f : Forest}
    (hrule : ofStatementKeyword? s.current.kind = some rule) (hruns : rule.Runs 0 s f s')
    (hend : s'.current.kind.endsStatement = true) :
    s.statement = ⟨f ++ [.token s'.current], s'.advance⟩ := by
  have hexplain : explain.Runs 0 s [] s := by
    refine .onlyIf_neg (beq_eq_false_iff_ne.2 fun hkind => ?_)
    rw [show s.current.kind = .keyword .EXPLAIN from hkind] at hrule
    cases hrule
  have hfinish : s'.finish = s'.take := if_pos hend
  rw [State.statement, show explain.parse s = ⟨[], s⟩ from hexplain, Outcome.andThen]
  dsimp only
  rw [State.body, hrule]
  dsimp only
  rw [show rule.parse s = _ from hruns, Outcome.andThen]
  dsimp only
  rw [hfinish]
  rfl

/-! ## Queries of one column -/

namespace Forest

theorem errors_nil : errors [] = [] := rfl

theorem errors_token (t : Token) (f : Forest) : errors (.token t :: f) = errors f := rfl

end Forest

section Select

variable {s s' : State} {t : Tree} {n : Nat}

/-- A column of a query is found where its expression is. -/
theorem runs_resultColumn {depth : Nat} {f : Forest} (henters : EntersAt 0 s.lookahead)
    (hruns : expr.Runs depth s f s') (hend : s'.current.kind ∈ [.comma, .semicolon, .eof]) :
    resultColumn.Runs depth s [.node .resultColumn f] s' := by
  have halias : columnAlias.Runs depth s' [] s' := by
    simp only [List.mem_cons, List.not_mem_nil, or_false] at hend
    rcases hend with hend | hend | hend
    all_goals
      refine .look (r := onlyIf (fun v => v.is .identifier || v.is .string)
        (node .columnAlias shift)) ?_ (.onlyIf_neg ?_)
      all_goals
        rw [State.lookahead_eq (s := s') hend]
        rfl
  refine .node (.look (r := all [expr, columnAlias]) ?_ (.keep hruns (.last halias)))
  have hstar : s.lookahead.is .star = false := beq_eq_false_iff_ne.2 (henters.ne rfl)
  rw [hstar, henters.notStar]
  rfl

/-- A query of one column. -/
def selectTree (word : Token) (t : Tree) (last : Token) : Tree :=
  .node .sqlStatement [.node .select [.token word, .node .resultColumn [t]], .token last]

theorem hasErrors_selectTree {word last : Token} {t : Tree} (ht : Forest.errors [t] = []) :
    (selectTree word t last).hasErrors = false := by
  rw [Tree.hasErrors, Bool.not_eq_false', List.isEmpty_iff]
  show Forest.errors ([.node .select ([.token word] ++ [.node .resultColumn [t]])]
    ++ [.token last]) = []
  simp only [Forest.errors_append_eq_nil, Forest.errors_node, Forest.errors_token,
    Forest.errors_nil, ht, and_self]

/-- **A query** is parsed where its columns are found. -/
theorem statement_columns {f : Forest} {word : Token} (hcurrent : s.current = word)
    (hword : word.kind = .keyword .SELECT) (henters : EntersAt 0 s.advance.lookahead)
    (hruns : (list ⟨"result column", TokenKind.startsResultColumn, .resultColumns⟩
      resultColumn).Runs 0 s.advance f s')
    (hends : s'.current.kind.endsStatement = true) :
    s.statement = ⟨[.node .select (.token word :: f), .token s'.current], s'.advance⟩ := by
  have hselect : select.Runs 0 s [.node .select (.token word :: f)] s' :=
    .node (.cons (.token hcurrent hword rfl) (.skip (.onlyIf_neg (henters.isKeywordIn (by decide)))
      (.last hruns)))
  have hrule : ofStatementKeyword? s.current.kind = some select := by
    rw [hcurrent, hword]
    rfl
  exact statement_of_runs hrule hselect hends

/-- **A query of one column** is parsed where its expression is found. -/
theorem statement_select (hs : s.input.Lawful) {word : Token} (hcurrent : s.current = word)
    (hword : word.kind = .keyword .SELECT) (henters : EntersAt 0 s.advance.lookahead)
    (hruns : expr.Runs 0 s.advance [t] s') (hterminals : Forest.terminals [t] ≠ [])
    (hend : s'.current.kind = .semicolon ∨ s'.current.kind = .eof) :
    s.statement = ⟨[.node .select [.token word, .node .resultColumn [t]], .token s'.current],
      s'.advance⟩ := by
  have hends : s'.current.kind.endsStatement = true := by
    rcases hend with hend | hend <;> rw [hend] <;> rfl
  have hstarts : s.advance.current.kind.startsResultColumn = true :=
    (Bool.or_eq_true _ _).mpr (.inr henters.starts)
  have hfollows : s'.current.kind.followsResultColumns = true := by
    rw [TokenKind.followsResultColumns, hends, Bool.or_true, Bool.true_or]
  have hcolumn := runs_resultColumn henters hruns
    (by rcases hend with hend | hend <;> rw [hend] <;> decide)
  have hcolumns : Forest.terminals [.node .resultColumn [t]] ≠ [] := by
    rw [Forest.terminals_node]
    exact hterminals
  exact statement_columns hcurrent hword henters (.list_last hs.advance (henters.ne rfl) hstarts
    hcolumn hcolumns (fun hcomma => by rw [hcomma] at hends; cases hends) (.inr hfollows)) hends

end Select

namespace TokenStream

variable {input : TokenStream}

/-- **A stream of the tokens of a query of one column.** -/
theorem parseStatement_select {t : Tree} {n : Nat} (hlawful : input.Lawful) {word : Token}
    {closing : List Token}
    (htokens : input.pending.map Lexeme.token = word :: (t.terminals ++ closing))
    (hword : word.kind = .keyword .SELECT) (hclosing : ∀ u ∈ closing.head?, u.kind = .semicolon)
    (h : Part.inner.Finds n [t]) (hn : n ≤ maxDepth) :
    input.parseStatement.statement.tree
      = selectTree word t (closing.head?.getD input.last.token) := by
  obtain ⟨s', ⟨hcurrent, hreads⟩, hpending, hlast⟩ :=
    exists_reads (State.start input) (word :: t.terminals) closing htokens
  have hs : (State.start input).input.Lawful := hlawful
  have hfinal : s'.current = closing.head?.getD input.last.token := by
    rw [State.current_eq hpending, hlast]
    rfl
  have hend : s'.current.kind = .semicolon ∨ s'.current.kind = .eof := by
    rw [hfinal]
    cases hhead : closing.head? with
    | some u => exact .inl (hclosing u hhead)
    | none => exact .inr (Token.kind_eq_eof hlawful.last)
  rw [← Forest.terminals_singleton] at hreads
  have hstops : StopsAt 0 s'.lookahead := by
    rcases hend with hend | hend <;> exact .of_kind hend (by decide)
  obtain ⟨henters, hruns⟩ := h 0 _ s' (by omega) hs.advance hreads hstops
  have hterminals : Forest.terminals [t] ≠ [] := by
    rcases hend with hend | hend <;>
      exact Part.Finds.terminals_ne_nil henters hreads hend rfl
  have hstatement := statement_select hs hcurrent hword henters hruns hterminals hend
  show Tree.node .sqlStatement (State.start input).statement.forest = _
  rw [hstatement, hfinal]
  rfl

/-- The statements of a source that has tokens, from the first one on. -/
theorem exists_parse_eq_cons (source : String)
    (h : (tokenize source).filter Token.isSignificant ≠ []) :
    ∃ rest, parse source = (ofSource source).parseStatement.statement :: rest := by
  have hmore : (ofSource source).isAtEnd = false := by
    rw [← pending_ofSource] at h
    rw [isAtEnd]
    cases hpending : (ofSource source).pending with
    | nil =>
      rw [hpending] at h
      exact absurd rfl h
    | cons l rest => rfl
  rw [parse, parseAll_cons (lawful_ofSource source) hmore, List.map_cons]
  exact ⟨_, rfl⟩

/-- **An accepted statement is read back** from the text its tokens are written as, if
they are such as a source has. -/
theorem exists_parse_toSource (hlawful : input.Lawful)
    (hlast : ∃ offset, input.last.token = .eof offset)
    (hproper : ∀ l ∈ input.pending, Lexer.IsProper l.token) {tree : Tree}
    (htree : input.parseStatement.statement.tree = tree) (haccepted : tree.hasErrors = false)
    (hne : tree.terminals.filter (fun t => !t.isEof) ≠ []) :
    ∃ statement rest, parse tree.toSource = statement :: rest
      ∧ statement.tree.eraseSpans = tree.eraseSpans := by
  subst htree
  obtain ⟨near, tail, last, hinput, hadjoins, hterminals, hbounded⟩ :=
    exists_of_accepted hlawful haccepted
  have hnear : ∀ l ∈ near, l ∈ input.pending := fun l hl => by
    rw [hinput]
    exact List.mem_append_left _ hl
  obtain ⟨tokens, hlexes, hreading⟩ := Lexer.exists_lexes_sourceAfter hadjoins
    (List.forall_mem_map.2 fun l hl => hproper l (hnear l hl)) 0
  rw [Tree.sourceAfter_semicolon, ← hterminals, Tree.sourceAfter_filter] at hlexes
  have htokens : tokenize input.parseStatement.statement.tree.toSource = tokens :=
    tokenize_eq_iff.2 hlexes
  rw [← htokens] at hreading
  obtain ⟨rest, hparse⟩ := exists_parse_eq_cons
    input.parseStatement.statement.tree.toSource fun hnil => hne <| by
      rw [hnil] at hreading
      rw [hterminals]
      exact List.map_eq_nil_iff.1 hreading.symm
  refine ⟨_, rest, hparse, ?_⟩
  have htail : ∃ offset, tail.last.token = .eof offset := by
    rw [hinput] at hlast
    exact hlast
  nth_rewrite 2 [hinput]
  refine eraseSpans_of_reading (fun l hl => hlawful.pending l (hnear l hl)) htail hbounded
    (lawful_ofSource _) (last_ofSource _) ?_
  rw [pending_ofSource]
  exact hreading

/-- **Given tokens as a stream**, without comments and whatever their places are. -/
def given (ts : List Token) : TokenStream := ⟨ts.map (⟨·, []⟩), ⟨.eof 0, []⟩⟩

theorem pending_given (ts : List Token) : (given ts).pending.map Lexeme.token = ts := by
  rw [given, List.map_map]
  exact List.map_id _

theorem isProper_of_mem_given {ts : List Token} (hproper : ∀ t ∈ ts, Lexer.IsProper t)
    {l : Lexeme} (hl : l ∈ (given ts).pending) : Lexer.IsProper l.token := by
  have hmem := List.mem_map_of_mem (f := Lexeme.token) hl
  rw [pending_given] at hmem
  exact hproper _ hmem

theorem lawful_given {ts : List Token} (hproper : ∀ t ∈ ts, Lexer.IsProper t) :
    (given ts).Lawful :=
  ⟨fun _ hl => (isProper_of_mem_given hproper hl).token.isEof_eq_false, rfl⟩

end TokenStream

/-- **An expression is read back** from the text that the query for it is written as, if
it is found and has no errors. -/
theorem exists_parse_selectTree (word : Token) {t : Tree} {n : Nat} (h : Part.inner.Finds n [t])
    (hn : n ≤ maxDepth) (herrors : Forest.errors [t] = []) (hword : word.kind = .keyword .SELECT)
    (hproper : ∀ u ∈ word :: t.terminals, Lexer.IsProper u) :
    ∃ statement rest, parse (selectTree word t (.eof 0)).toSource = statement :: rest
      ∧ statement.tree.eraseSpans = (selectTree word t (.eof 0)).eraseSpans := by
  have hlawful := TokenStream.lawful_given hproper
  have htokens : (TokenStream.given (word :: t.terminals)).pending.map Lexeme.token
      = word :: (t.terminals ++ []) := by
    rw [TokenStream.pending_given, List.append_nil]
  have htree := TokenStream.parseStatement_select hlawful htokens hword nofun h hn
  refine TokenStream.exists_parse_toSource hlawful ⟨0, rfl⟩
    (fun _ => TokenStream.isProper_of_mem_given hproper) htree (hasErrors_selectTree herrors) ?_
  have heof : word.isEof = false := (hproper word List.mem_cons_self).token.isEof_eq_false
  simp [selectTree, Tree.terminals, Tree.leaves, Leaf.token?, heof]

end TolerantSql
