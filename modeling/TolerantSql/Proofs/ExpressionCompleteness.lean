import TolerantSql.Proofs.GivenTokens

/-!
# Completeness of expressions

The expression parser misses nothing: whatever tree the grammar of expressions
allows, it is what its tokens are parsed as (`parse_expression`). That holds in the
midst of a parse, where the parser leaves off exactly behind the tokens of the
expression, and of sources: of every text that has these tokens, however it is laid
out, and of the text that the tree is written as. The only condition is that the
tree is not nested more deeply than the parser goes.
-/

namespace TolerantSql

open Rule

/-! ## Expressions report nothing -/

theorem Spells.errors {kinds : List TokenKind} {f : Forest} (h : Spells kinds f) :
    Forest.errors f = [] := by
  induction kinds generalizing f with
  | nil =>
    obtain rfl : f = [] := h
    rfl
  | cons kind kinds ih =>
    obtain ⟨t, rest, rfl, -, hrest⟩ := h
    rw [Forest.errors_token]
    exact ih hrest

/-- There are no errors in an expression. -/
theorem Phrase.errors {part : Part} {n : Nat} {f : Forest} (h : Phrase part n f) :
    Forest.errors f = [] := by
  induction h <;> grind [Spells.errors, Forest.errors_append_eq_nil, Forest.errors_node,
    Forest.errors_token, Forest.errors_nil]

/-! ## Expressions in sources -/

/-- **Every expression is found.** Let `t` be an expression that is nested less deeply
than the parser goes. Where the tokens of `t` come next, and something behind them
that does not go on with an expression, the rule of expressions adds `t` and leaves
off behind its tokens. If the significant tokens of a source are `SELECT`, those of
`t`, and then nothing or a semicolon, then the first statement of the source is the
query for `t`, without errors. And the text that such a query is written as has
that query as its first statement, up to the places of tokens. -/
theorem parse_expression (t : Tree) (n : Nat) (ht : Phrase (.operand 0) n [t]) :
    (∀ (depth : Nat) (s s' : State), depth + n < maxDepth → s.input.Lawful →
      Reads t.terminals s s' → StopsAt 0 s'.lookahead →
      expr.run Nonterminal.parse depth s = ⟨[t], s'⟩)
    ∧ ∀ word : Token, n < maxDepth → word.kind = .keyword .SELECT →
      (∀ (source : String) (closing : List Token),
        (tokenize source).filter Token.isSignificant = word :: (t.terminals ++ closing) →
        (∀ u ∈ closing.head?, u.kind = .semicolon) →
        ∃ statement rest last, parse source = statement :: rest
          ∧ statement.hasErrors = false ∧ last.kind.endsStatement = true
          ∧ statement.tree = selectTree word t last)
      ∧ ((∀ u ∈ word :: t.terminals, Lexer.IsProper u) →
        ∃ statement rest, parse (selectTree word t (.eof 0)).toSource = statement :: rest
          ∧ statement.tree.eraseSpans = (selectTree word t (.eof 0)).eraseSpans) := by
  have hfinds : Part.inner.Finds (n + 1) [t] := ht.inner.finds
  refine ⟨fun depth s s' hdepth hs hreads hstops => ?_, fun word hn hword =>
    ⟨fun source closing htokens hclosing => ?_, fun hproper => ?_⟩⟩
  · rw [← Forest.terminals_singleton] at hreads
    exact (hfinds depth s s' hdepth hs hreads hstops).2
  · have hlawful := TokenStream.lawful_ofSource source
    have hne : (tokenize source).filter Token.isSignificant ≠ [] := by
      rw [htokens]
      exact List.cons_ne_nil _ _
    rw [← TokenStream.pending_ofSource] at htokens
    have htree := TokenStream.parseStatement_select hlawful htokens hword hclosing hfinds hn
    obtain ⟨rest, hparse⟩ := TokenStream.exists_parse_eq_cons source hne
    refine ⟨_, rest, _, hparse, ?_, ?_, htree⟩
    · rw [Statement.hasErrors, htree]
      exact hasErrors_selectTree ht.errors
    · cases hhead : closing.head? with
      | some u =>
        show u.kind.endsStatement = true
        rw [hclosing u hhead]
        rfl
      | none =>
        obtain ⟨offset, hoffset⟩ := TokenStream.last_ofSource source
        show (TokenStream.ofSource source).last.token.kind.endsStatement = true
        rw [hoffset]
        rfl
  · exact exists_parse_selectTree word hfinds hn ht.errors hword hproper

/-- The expression in `SELECT NOT a IN (1);` is nested twice. -/
theorem parse_expression_not :
    ∃ statement rest last, parse "SELECT NOT a IN (1);" = statement :: rest
      ∧ statement.hasErrors = false ∧ last.kind.endsStatement = true
      ∧ statement.tree = selectTree ⟨.keyword .SELECT, "SELECT", ⟨0, 6⟩⟩
        (.node .not [.token ⟨.keyword .NOT, "NOT", ⟨7, 10⟩⟩, .node .equality [
          .node .columnReference [.token ⟨.identifier, "a", ⟨11, 12⟩⟩],
          .token ⟨.keyword .IN, "IN", ⟨13, 15⟩⟩,
          .node .parenthesized [.token ⟨.leftParen, "(", ⟨16, 17⟩⟩,
            .token ⟨.numeric, "1", ⟨17, 18⟩⟩, .token ⟨.rightParen, ")", ⟨18, 19⟩⟩]]]) last := by
  have hspells : ∀ {kind : TokenKind} {t : Token}, t.kind = kind → Spells [kind] [.token t] :=
    fun h => ⟨_, _, rfl, h, rfl⟩
  have hcolumn : Phrase (.operand 11) 1
      [.node .columnReference [.token ⟨.identifier, "a", ⟨11, 12⟩⟩]] :=
    .column (hspells rfl) List.mem_cons_self
  have hin : SpellsWords [.IN] [.token ⟨.keyword .IN, "IN", ⟨13, 15⟩⟩] := hspells rfl
  have hnot : SpellsWords [.NOT] [.token ⟨.keyword .NOT, "NOT", ⟨7, 10⟩⟩] := hspells rfl
  have hone : Phrase (.operand 11) 0 [.token ⟨.numeric, "1", ⟨17, 18⟩⟩] := .literal rfl
  have htest := Phrase.inItems hin List.mem_cons_self
    (hspells (t := ⟨.leftParen, "(", ⟨16, 17⟩⟩) rfl) (hone.mono (by decide)).inner.item
    (hspells (t := ⟨.rightParen, ")", ⟨18, 19⟩⟩) rfl)
  have hequality := Phrase.equality (hcolumn.mono (by decide)) htest.last
  have hphrase := (Phrase.not hnot (hequality.mono (by decide))).mono (Nat.zero_le _)
  exact ((parse_expression _ 2 hphrase).2 _ (by decide) rfl).1 _
    [⟨.semicolon, ";", ⟨19, 20⟩⟩] (by decide +kernel) (by decide)

end TolerantSql
