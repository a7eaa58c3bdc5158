import TolerantSql.Proofs.GrammarAdjacency
import TolerantSql.Proofs.Relexing
import TolerantSql.Proofs.StatementIndependence
import TolerantSql.Proofs.TreeMatching

/-!
# Accepted statements can be written and read back

A statement without errors is a rule that reports nothing and the token that ends
it (`State.accepts_statement`), so its tokens stay apart by the derivations of the
grammar, and the text that its tree is written as is read as the same tokens. The
stream of that text differs from the stream the statement was taken from in three
ways: tokens stand elsewhere, comments are gone, and nothing follows the token that
ends the statement. Forgetting places and comments is a relabelling, and no rule is
decided by what stands behind the end of its statement (`Rule.Confined`), so parallel
runs to the same stream make the two trees equal up to the places of tokens.
-/

namespace TolerantSql

/-! ## What an accepted statement takes -/

namespace State

variable {s : State}

/-- **A statement that is accepted**: it is closed by the token that comes next, and
the tokens before that stay apart from one another and from whatever stands before
them. -/
def Accepts (previous : TokenKind) (s : State) (out : Outcome) : Prop :=
  ∃ first taken last, Took taken s first ∧ first.state.atEnd = true ∧ out = first.andThen take
    ∧ Adjoins previous (taken.map Lexeme.token) last

/-- What is taken before does not change whether a statement is accepted. -/
theorem Accepts.after {previous middle : TokenKind} {out out' : Outcome} {taken : List Lexeme}
    (h : Took taken s out) (hadjoins : Adjoins previous (taken.map Lexeme.token) middle)
    (h' : Accepts middle out.state out') :
    Accepts previous s ⟨out.forest ++ out'.forest, out'.state⟩ := by
  obtain ⟨first, taken', last, hfirst, hend, rfl, hadjoins'⟩ := h'
  refine ⟨⟨out.forest ++ first.forest, first.state⟩, _, last, h.andThen hfirst, hend, ?_, ?_⟩
  · simp only [Outcome.andThen, List.append_assoc]
  · rw [List.map_append]
    exact hadjoins.append hadjoins'

/-- A statement that reports nothing at its end has nothing left over. -/
theorem accepts_andThen_finish {previous last : TokenKind} {out : Outcome} {taken : List Lexeme}
    (h : Took taken s out) (hadjoins : Adjoins previous (taken.map Lexeme.token) last)
    (hreported : out.state.endReported = false)
    (herrors : Forest.errors (out.andThen finish).forest = []) :
    Accepts previous s (out.andThen finish) := by
  have hfinish := (Forest.errors_append_eq_nil.1 herrors).2
  cases hend : out.state.atEnd with
  | true =>
    refine ⟨out, taken, last, h, hend, ?_, hadjoins⟩
    rw [Outcome.andThen, finish, hend]
    rfl
  | false =>
    rw [finish, hend] at hfinish
    exact absurd hfinish (errors_andThen_ne_nil (errors_recover hreported _ _ _) _)

/-- What a rule takes if it reports nothing and is derived to join its tokens. -/
theorem exists_took_of_joins {begun : Bool} {P Q : Assertion} {r : Rule}
    (h : Rule.Joins begun P r Q) {previous : TokenKind} (hs : s.input.Lawful)
    (hreported : s.endReported = false) (hpre : P s.lookahead previous)
    (herrors : Forest.errors (r.parse s).forest = []) :
    ∃ taken last, Took taken s (r.parse s) ∧ Adjoins previous (taken.map Lexeme.token) last
      ∧ (r.parse s).state.endReported = false := by
  have hjoined := h.meets (s.remaining + 1) s previous hs (Nat.lt_succ_self _) hreported hpre
    herrors
  obtain ⟨taken, htook⟩ := Took.rule r hs
  obtain ⟨last, hadjoins, -⟩ := hjoined.adjoins
  rw [htook.terminals] at hadjoins
  exact ⟨taken, last, htook, hadjoins, hjoined.reported⟩

open Rule in
/-- What stands behind the optional `EXPLAIN` is accepted if it reports nothing. -/
theorem accepts_body (hs : s.input.Lawful) (hreported : s.endReported = false)
    {explained : Bool} (herrors : Forest.errors (s.body explained).forest = [])
    (previous : TokenKind) : Accepts previous s (s.body explained) := by
  rw [body] at herrors ⊢
  split at herrors
  · next rule hrule =>
    obtain ⟨taken, last, htook, hadjoins, hreported'⟩ :=
      exists_took_of_joins (joins_ofStatementKeyword hrule) hs hreported rfl
        (Forest.errors_append_eq_nil.1 herrors).1
    exact accepts_andThen_finish htook hadjoins hreported' herrors
  · split at herrors
    · next hend =>
      rw [if_pos hend]
      cases explained with
      | true => exact absurd (Forest.errors_append_eq_nil.1 herrors).1 (List.cons_ne_nil _ _)
      | false => exact accepts_andThen_finish (Took.stay s) (.nil previous) hreported herrors
    · exact absurd herrors (errors_andThen_ne_nil (errors_recover hreported _ _ _) _)

/-- **A statement that reports nothing is accepted.** -/
theorem accepts_statement (hs : s.input.Lawful) (hreported : s.endReported = false)
    (herrors : Forest.errors s.statement.forest = []) (previous : TokenKind) :
    Accepts previous s s.statement := by
  obtain ⟨herrors₁, herrors₂⟩ := Forest.errors_append_eq_nil.1 herrors
  obtain ⟨taken, middle, htook, hadjoins, hreported'⟩ :=
    exists_took_of_joins (Rule.joins_explain (P := .anything)) hs hreported trivial herrors₁
  exact Accepts.after htook hadjoins (accepts_body (htook.lawful hs) hreported' herrors₂ middle)

end State

namespace TokenStream

variable {input : TokenStream}

/-- The tokens of an accepted statement: those that stay apart, and the one that
ends it. -/
theorem terminals_of_accepted (h : input.Lawful)
    (haccepted : input.parseStatement.statement.hasErrors = false) :
    ∃ tokens ending last, input.parseStatement.statement.tree.terminals = tokens ++ [ending]
      ∧ ending.kind.endsStatement = true ∧ Adjoins .semicolon tokens last := by
  have herrors : Forest.errors (State.start input).statement.forest = [] := by
    rw [Statement.hasErrors, Tree.hasErrors, Bool.not_eq_false', List.isEmpty_iff] at haccepted
    exact haccepted
  have hs : (State.start input).input.Lawful := h
  obtain ⟨first, taken, last, htook, hend, hout, hadjoins⟩ :=
    State.accepts_statement hs rfl herrors .semicolon
  refine ⟨taken.map Lexeme.token, first.state.current, last, ?_, hend, hadjoins⟩
  show Forest.terminals (State.start input).statement.forest = _
  rw [hout, Outcome.andThen, Took.terminals_append, htook.terminals]
  rfl

/-- The lexemes of a lawful stream are not the end of the input. -/
theorem Lawful.filter_tokens (h : input.Lawful) {near : List Lexeme}
    (hnear : ∀ l ∈ near, l ∈ input.pending) :
    (near.map Lexeme.token).filter (fun t => !t.isEof) = near.map Lexeme.token :=
  List.filter_eq_self.2 fun t ht => by
    obtain ⟨l, hl, rfl⟩ := List.mem_map.1 ht
    rw [h.pending l (hnear l hl)]
    rfl

/-- **What an accepted statement takes from a stream**: lexemes whose tokens stay
apart and, the end of the input aside, are the tokens of its tree. They end with a
semicolon, unless they are all there is. -/
theorem exists_of_accepted (h : input.Lawful)
    (haccepted : input.parseStatement.statement.hasErrors = false) :
    ∃ near tail last, input = prepend tail near
      ∧ Adjoins .semicolon (near.map Lexeme.token) last
      ∧ input.parseStatement.statement.tree.terminals.filter (fun t => !t.isEof)
        = near.map Lexeme.token
      ∧ (tail.pending = [] ∨ ∃ l ∈ near, l.token.kind = .semicolon) := by
  obtain ⟨tokens, ending, last, hterminals, hending, hadjoins⟩ :=
    terminals_of_accepted h haccepted
  rcases parseStatement_cases h with ⟨taken, -, hpending, hlast, htaken⟩ | ⟨-, hall⟩
  · -- the token that ends the statement was taken from the lexemes, so it is a semicolon
    have hsub : ∀ l ∈ taken, l ∈ input.pending := fun l hl =>
      hpending ▸ List.mem_append_left _ hl
    have hconcat : taken.map Lexeme.token = tokens ++ [ending] := htaken.symm.trans hterminals
    obtain ⟨l, hl, hlending⟩ : ∃ l ∈ taken, l.token = ending :=
      List.mem_map.1 (hconcat ▸ List.mem_append_right _ List.mem_cons_self)
    have hsemi : ending.kind = .semicolon := by
      by_contra hne
      rw [Token.endsStatement_eq_false (hlending ▸ h.pending l (hsub l hl)) hne] at hending
      cases hending
    refine ⟨taken, input.parseStatement.rest, ending.kind, ?_, ?_, ?_, .inr ⟨l, hl, ?_⟩⟩
    · rw [prepend, ← hpending, hlast]
    · rw [hconcat]
      have hharmless : ending.kind.isHarmless = true := by rw [hsemi]; rfl
      have hproper : ending.kind.isError = false := by rw [hsemi]; rfl
      exact hadjoins.append
        (.cons (TokenKind.staysApart_of_isHarmless hharmless last) hproper (.nil _))
    · rw [htaken, h.filter_tokens hsub]
    · rw [hlending, hsemi]
  · rw [hall] at hterminals ⊢
    obtain ⟨htokens, -⟩ := List.append_inj' hterminals rfl
    refine ⟨input.pending, ⟨[], input.last⟩, last, (prepend_pending input).symm, ?_, ?_, .inl rfl⟩
    · rw [htokens]
      exact hadjoins
    · rw [List.filter_append, h.filter_tokens fun _ hl => hl, List.filter_singleton, h.last]
      exact List.append_nil _

end TokenStream

/-! ## Forgetting places and comments -/

/-- Lexemes that are read alike are the same up to places and comments. -/
theorem Relabelling.map_erase_of_reading {near near' : List Lexeme}
    (h : (near.map Lexeme.token).map Lexer.reading = (near'.map Lexeme.token).map Lexer.reading) :
    near.map Relabelling.erase.lexeme = near'.map Relabelling.erase.lexeme := by
  rw [List.map_map, List.map_map] at h
  have hmap := congrArg (List.map fun r : TokenKind × String =>
    (⟨⟨r.1, r.2, .empty 0⟩, []⟩ : Lexeme)) h
  rw [List.map_map, List.map_map] at hmap
  exact hmap

/-- A stream of which nothing is left. -/
def TokenStream.ended : TokenStream := ⟨[], ⟨.eof 0, []⟩⟩

/-- **Without places and comments, a statement is what its lexemes are parsed as**
on their own, if they end with a semicolon or are all there is. -/
theorem TokenStream.parseStatement_erase (near : List Lexeme) (tail : TokenStream)
    (hproper : ∀ l ∈ near, l.token.isEof = false)
    (hlast : ∃ offset, tail.last.token = .eof offset)
    (hbounded : tail.pending = [] ∨ ∃ l ∈ near, l.token.kind = .semicolon) :
    (ended.prepend (near.map Relabelling.erase.lexeme)).parseStatement.statement
      = (tail.prepend near).parseStatement.statement.relabel .erase := by
  refine (parseStatement_prepend .erase tail ended hproper (hbounded.imp_left fun hnil => ?_)).1
  obtain ⟨offset, hoffset⟩ := hlast
  refine ⟨hnil, rfl, ?_, by rw [hoffset]; rfl⟩
  rw [Relabelling.lexeme, hoffset]
  rfl

/-- **Streams that are read alike have the same statement in front**, up to places:
what follows it in the one does not matter, and nothing follows it in the other. -/
theorem TokenStream.eraseSpans_of_reading {near : List Lexeme} {tail input : TokenStream}
    (hproper : ∀ l ∈ near, l.token.isEof = false)
    (hlast : ∃ offset, tail.last.token = .eof offset)
    (hbounded : tail.pending = [] ∨ ∃ l ∈ near, l.token.kind = .semicolon)
    (hlawful : input.Lawful) (hend : ∃ offset, input.last.token = .eof offset)
    (hreading : (input.pending.map Lexeme.token).map Lexer.reading
      = (near.map Lexeme.token).map Lexer.reading) :
    input.parseStatement.statement.tree.eraseSpans
      = (tail.prepend near).parseStatement.statement.tree.eraseSpans := by
  have hnear := parseStatement_erase near tail hproper hlast hbounded
  have hinput := parseStatement_erase input.pending ⟨[], input.last⟩ hlawful.pending hend (.inl rfl)
  rw [prepend_pending, Relabelling.map_erase_of_reading hreading, hnear] at hinput
  exact congrArg Statement.tree hinput.symm

/-! ## Writing and reading -/

open TokenStream in
/-- **Accepted statements can be written and read back.** Whatever the source is,
take a statement of it without errors and the text that its tree is written as. The
significant tokens of that text have the kinds and texts of the tokens of the tree,
and the statement parsed from it has the same tree up to the places of tokens, so
each of the two trees is as expected of the other. -/
theorem parseStatement_toSource (source : String) {statement : Statement}
    (hmem : statement ∈ parse source) (haccepted : statement.hasErrors = false) :
    ((tokenize statement.tree.toSource).filter (fun t => !t.kind.isTrivia && !t.isEof)).map
        (fun t => (t.kind, t.text))
      = (statement.tree.terminals.filter (fun t => !t.isEof)).map (fun t => (t.kind, t.text))
    ∧ (ofSource statement.tree.toSource).parseStatement.statement.tree.eraseSpans
        = statement.tree.eraseSpans
    ∧ statement.tree.admits
        (ofSource statement.tree.toSource).parseStatement.statement.tree = true
    ∧ (ofSource statement.tree.toSource).parseStatement.statement.tree.admits
        statement.tree = true := by
  obtain ⟨parsed, hparsed, rfl⟩ := List.mem_map.1 hmem
  obtain ⟨input, hlawful, hsuffix, hlast, rfl⟩ :=
    exists_of_mem_parseAll (lawful_ofSource source) hparsed
  obtain ⟨near, tail, last, hinput, hadjoins, hterminals, hbounded⟩ :=
    exists_of_accepted hlawful haccepted
  have hnear : ∀ l ∈ near, l ∈ input.pending := fun l hl => by
    rw [hinput]
    exact List.mem_append_left _ hl
  have hproper : ∀ t ∈ near.map Lexeme.token, Lexer.IsProper t := fun t ht => by
    obtain ⟨l, hl, rfl⟩ := List.mem_map.1 ht
    exact Lexer.isProper_of_mem_ofSource (hsuffix.subset (hnear l hl))
      (hadjoins.isError_of_mem ht)
  -- what is written is read as the lexemes that the statement took
  obtain ⟨tokens, hlexes, hreading⟩ := Lexer.exists_lexes_sourceAfter hadjoins hproper 0
  rw [Tree.sourceAfter_semicolon, ← hterminals, Tree.sourceAfter_filter] at hlexes
  have htokens : tokenize input.parseStatement.statement.tree.toSource = tokens :=
    tokenize_eq_iff.2 hlexes
  -- and its stream differs from theirs only in what a statement does not see
  have htail : ∃ offset, tail.last.token = .eof offset := by
    rw [hinput] at hlast
    obtain ⟨offset, hoffset⟩ := last_ofSource source
    exact ⟨offset, hlast.trans hoffset⟩
  have htree : Tree.eraseSpans
        (ofSource input.parseStatement.statement.tree.toSource).parseStatement.statement.tree
      = input.parseStatement.statement.tree.eraseSpans := by
    nth_rewrite 2 [hinput]
    refine eraseSpans_of_reading (fun l hl => hlawful.pending l (hnear l hl)) htail hbounded
      (lawful_ofSource _) (last_ofSource _) ?_
    rw [pending_ofSource, htokens]
    exact hreading
  refine ⟨?_, htree, Tree.admits_of_eraseSpans _ _ htree.symm, Tree.admits_of_eraseSpans _ _ htree⟩
  rw [htokens, hterminals]
  exact hreading

/-- Two dashes keep their space when they are written, and the comment is gone; the
statement behind, which has an error, does not matter. -/
theorem parseStatement_toSource_select :
    ∃ statement ∈ parse "SELECT $a /* c */ - -x < .5; SELECT",
      statement.hasErrors = false ∧ statement.tree.toSource = "SELECT $a- -x<.5;"
        ∧ (TokenStream.ofSource "SELECT $a- -x<.5;").parseStatement.statement.tree.eraseSpans
          = statement.tree.eraseSpans := by
  have hany : (parse "SELECT $a /* c */ - -x < .5; SELECT").any
      (fun s => !s.hasErrors && s.tree.toSource == "SELECT $a- -x<.5;") = true := by
    decide +kernel
  obtain ⟨statement, hmem, hstatement⟩ := List.any_eq_true.1 hany
  rw [Bool.and_eq_true, Bool.not_eq_true', beq_iff_eq] at hstatement
  obtain ⟨haccepted, hsource⟩ := hstatement
  have htree := (parseStatement_toSource _ hmem haccepted).2.1
  rw [hsource] at htree
  exact ⟨statement, hmem, haccepted, hsource, htree⟩

end TolerantSql
