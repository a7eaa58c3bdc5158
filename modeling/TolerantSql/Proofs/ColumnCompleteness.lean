import TolerantSql.Proofs.ColumnRuns
import TolerantSql.Proofs.ExpressionCompleteness

/-!
# Completeness of column definitions

Whatever column definition the grammar allows, it is what its tokens are parsed as
(`parse_columnDefinition`): a name, then the type if there is one, then one node for
each constraint. Constraints may be of any kinds, in any number and in any order.
-/

namespace TolerantSql

open Rule

/-- There are no errors in a part of a column definition. -/
theorem ColumnPhrase.errors {part : ColumnPart} {f : Forest} (h : ColumnPhrase part f) :
    Forest.errors f = [] := by
  induction h <;> grind [Spells.errors, Phrase.errors, Forest.errors_append_eq_nil,
    Forest.errors_node, Forest.errors_token, Forest.errors_nil]

/-! ## Statements that add a column -/

theorem errors_columnTree {name : Token} {type constraints : Forest}
    (htype : ColumnPhrase .type type) (h : ∀ c ∈ constraints, ColumnPhrase .constraint [c]) :
    Forest.errors [columnTree name type constraints] = [] := by
  have hconstraints : Forest.errors constraints = [] := by
    induction constraints with
    | nil => rfl
    | cons c constraints ih =>
      exact (Forest.errors_append_eq_nil (f := [c])).2 ⟨(h c List.mem_cons_self).errors,
        ih fun c hc => h c (List.mem_cons_of_mem _ hc)⟩
  show Forest.errors [.node .columnDefinition
    ([.node .columnName [.token name]] ++ (type ++ constraints))] = []
  simp only [Forest.errors_node, Forest.errors_append_eq_nil, Forest.errors_token,
    Forest.errors_nil, htype.errors, hconstraints, and_self]

/-- The statement `ALTER TABLE name ADD COLUMN definition ;`. -/
def addColumnTree (alter table name add column : Token) (definition : Tree) (last : Token) :
    Tree :=
  .node .sqlStatement [
    .node .alterTable [.token alter, .token table, .node .tableName [.token name],
      .node .addColumn [.token add, .token column, definition]],
    .token last]

section AddColumn

variable {s s' : State} {alter table name add column last : Token} {definition : Tree}

theorem terminals_addColumnTree :
    (addColumnTree alter table name add column definition last).terminals
      = [alter, table, name, add, column] ++ (definition.terminals ++ [last]) := by
  simp [addColumnTree, Tree.terminals, Tree.leaves, Leaf.token?]

theorem hasErrors_addColumnTree (h : Forest.errors [definition] = []) :
    (addColumnTree alter table name add column definition last).hasErrors = false := by
  rw [Tree.hasErrors, Bool.not_eq_false', List.isEmpty_iff]
  show Forest.errors ([.node .alterTable ([.token alter, .token table]
    ++ ([.node .tableName [.token name]] ++ [.node .addColumn ([.token add, .token column]
      ++ [definition])]))] ++ [.token last]) = []
  simp only [Forest.errors_append_eq_nil, Forest.errors_node, Forest.errors_token,
    Forest.errors_nil, h, and_self]

/-- **The kinds of the tokens in front of a column that is added.** -/
def AddsColumn (alter table name add column : Token) : Prop :=
  [alter, table, name, add, column].map Token.kind
    = [.keyword .ALTER, .keyword .TABLE, .identifier, .keyword .ADD, .keyword .COLUMN]

/-- A column is added where its definition is found. -/
theorem runs_alterTable (hwords : AddsColumn alter table name add column)
    (hreads : Reads [alter, table, name, add, column] s s')
    {s'' : State} (hruns : columnDefinition.Runs 0 s' [definition] s'') :
    alterTable.Runs 0 s [.node .alterTable [.token alter, .token table,
      .node .tableName [.token name], .node .addColumn [.token add, .token column, definition]]]
      s'' := by
  simp only [AddsColumn, List.map_cons, List.map_nil, List.cons.injEq, and_true] at hwords
  obtain ⟨halter, htable, hname, hadd, hcolumn⟩ := hwords
  obtain ⟨hcurrent, hcurrent₁, hcurrent₂, hcurrent₃, hcurrent₄, rfl⟩ := hreads
  have hv := State.lookahead_eq (State.lookahead_current hcurrent₂ hname)
  have hnext := State.lookahead_next s.advance.advance
  rw [hcurrent₃, hadd] at hnext
  -- a word with `ADD` behind it is the name of a table and not of a schema
  have htable' : (branch lacksTableName (missing true "table name")
      (qualifiedName .tableName "table name")).Runs 0 s.advance.advance
        [.node .tableName [.token name]] s.advance.advance.advance :=
    .branch_neg (by rw [hv]; rfl) (.skip (.onlyIf_neg (by rw [hv, hnext]; rfl))
      (.last (.name hcurrent₂ hname)))
  have haction : alterAction.Runs 0 s.advance.advance.advance
      [.node .addColumn [.token add, .token column, definition]] s'' := by
    refine .look ?_ (.node (.cons (.token hcurrent₃ hadd rfl) (.cons
      (.eatKeyword hcurrent₄ hcolumn) (.last hruns))))
    rw [State.lookahead_eq (State.lookahead_current hcurrent₃ hadd)]
    rfl
  exact .node (.cons (.token hcurrent halter rfl) (.cons (.expectKeyword hcurrent₁ htable)
    (.cons htable' (.last haction))))

/-- **A stream of the tokens of a statement that adds a column.** -/
theorem TokenStream.parseStatement_addColumn {input : TokenStream} (hlawful : input.Lawful)
    {columnName : Token} {type constraints : Forest} {more : List Token}
    (hwords : AddsColumn alter table name add column) (hname : columnName.kind = .identifier)
    (htype : ColumnPhrase .type type) (h : ∀ c ∈ constraints, ColumnPhrase .constraint [c])
    (hlast : last.kind = .semicolon)
    (htokens : input.pending.map Lexeme.token = [alter, table, name, add, column]
      ++ ((columnTree columnName type constraints).terminals ++ last :: more)) :
    input.parseStatement.statement.tree = addColumnTree alter table name add column
      (columnTree columnName type constraints) last := by
  rw [← List.append_assoc] at htokens
  obtain ⟨s', hreads, hpending, -⟩ := exists_reads (State.start input) _ _ htokens
  obtain ⟨s₁, hreads, hreads'⟩ := reads_append.1 hreads
  have hs : (State.start input).input.Lawful := hlawful
  have hfinal : s'.current = last := State.current_eq hpending
  have hend : s'.current.kind.endsStatement = true := by
    rw [hfinal, hlast]
    rfl
  have hdefinition := runs_columnDefinition hname htype h (hreads.lawful hs) hreads' hend
  have hrule : ofStatementKeyword? (State.start input).current.kind = some alterTable := by
    rw [hreads.1, (List.cons.inj hwords).1]
    rfl
  have hstatement := statement_of_runs hrule (runs_alterTable hwords hreads hdefinition) hend
  show Tree.node .sqlStatement (State.start input).statement.forest = _
  rw [hstatement, hfinal]
  rfl

end AddColumn

/-- **Every column definition is found.** Take the name of a column, its type if it has
one, and constraints in any number, as the grammar of column definitions has them. If
the significant tokens of a source begin with `ALTER TABLE name ADD COLUMN`, those of
the definition, and a semicolon, then the first statement of the source has no errors
and adds that column: its definition has the name, the type and one node for each
constraint in order. And the text that such a statement is written as has that
statement as its first one, up to the places of tokens. -/
theorem parse_columnDefinition {alter table name add column last : Token} {columnName : Token}
    {type constraints : Forest} (hwords : AddsColumn alter table name add column)
    (hname : columnName.kind = .identifier) (htype : ColumnPhrase .type type)
    (hconstraints : ∀ c ∈ constraints, ColumnPhrase .constraint [c])
    (hlast : last.kind = .semicolon) :
    let definition := columnTree columnName type constraints
    let tree := addColumnTree alter table name add column definition last
    (∀ (source : String) (more : List Token),
      (tokenize source).filter Token.isSignificant
        = [alter, table, name, add, column] ++ (definition.terminals ++ last :: more) →
      ∃ statement rest, parse source = statement :: rest
        ∧ statement.hasErrors = false ∧ statement.tree = tree)
    ∧ ((∀ u ∈ tree.terminals, Lexer.IsProper u) →
      ∃ statement rest, parse tree.toSource = statement :: rest
        ∧ statement.tree.eraseSpans = tree.eraseSpans) := by
  intro definition tree
  have haccepted : tree.hasErrors = false :=
    hasErrors_addColumnTree (errors_columnTree htype hconstraints)
  refine ⟨fun source more htokens => ?_, fun hproper => ?_⟩
  · have hne : (tokenize source).filter Token.isSignificant ≠ [] := by
      rw [htokens]
      exact List.cons_ne_nil _ _
    rw [← TokenStream.pending_ofSource] at htokens
    have htree : (TokenStream.ofSource source).parseStatement.statement.tree = tree :=
      TokenStream.parseStatement_addColumn (TokenStream.lawful_ofSource source) hwords hname htype
        hconstraints hlast htokens
    obtain ⟨rest, hparse⟩ := TokenStream.exists_parse_eq_cons source hne
    refine ⟨_, rest, hparse, ?_, htree⟩
    rw [Statement.hasErrors, htree]
    exact haccepted
  · have hlawful := TokenStream.lawful_given hproper
    have htokens := (TokenStream.pending_given tree.terminals).trans terminals_addColumnTree
    have htree : (TokenStream.given tree.terminals).parseStatement.statement.tree = tree :=
      TokenStream.parseStatement_addColumn hlawful hwords hname htype hconstraints hlast htokens
    refine TokenStream.exists_parse_toSource hlawful ⟨0, rfl⟩
      (fun _ => TokenStream.isProper_of_mem_given hproper) htree haccepted ?_
    have heof : alter.isEof = false := by
      rw [Token.isEof, (List.cons.inj hwords).1]
      rfl
    rw [terminals_addColumnTree, List.cons_append, List.filter_cons_of_pos (by rw [heof]; rfl)]
    exact List.cons_ne_nil _ _

/-- The `NULL` behind `SET` is part of the reference, the next one a constraint. -/
theorem parse_columnDefinition_null :
    ∃ statement rest,
      parse "ALTER TABLE t ADD COLUMN c INTEGER REFERENCES u ON DELETE SET NULL NULL CHECK (c);"
        = statement :: rest
      ∧ statement.hasErrors = false
      ∧ statement.tree = addColumnTree ⟨.keyword .ALTER, "ALTER", ⟨0, 5⟩⟩
        ⟨.keyword .TABLE, "TABLE", ⟨6, 11⟩⟩ ⟨.identifier, "t", ⟨12, 13⟩⟩
        ⟨.keyword .ADD, "ADD", ⟨14, 17⟩⟩ ⟨.keyword .COLUMN, "COLUMN", ⟨18, 24⟩⟩
        (columnTree ⟨.identifier, "c", ⟨25, 26⟩⟩
          [.node .typeName [.token ⟨.identifier, "INTEGER", ⟨27, 34⟩⟩]]
          [.node .columnConstraint [.node .foreignKeyClause [
              .token ⟨.keyword .REFERENCES, "REFERENCES", ⟨35, 45⟩⟩,
              .node .tableName [.token ⟨.identifier, "u", ⟨46, 47⟩⟩],
              .token ⟨.keyword .ON, "ON", ⟨48, 50⟩⟩, .token ⟨.keyword .DELETE, "DELETE", ⟨51, 57⟩⟩,
              .token ⟨.keyword .SET, "SET", ⟨58, 61⟩⟩, .token ⟨.keyword .NULL, "NULL", ⟨62, 66⟩⟩]],
            .node .columnConstraint [.token ⟨.keyword .NULL, "NULL", ⟨67, 71⟩⟩],
            .node .columnConstraint [.token ⟨.keyword .CHECK, "CHECK", ⟨72, 77⟩⟩,
              .token ⟨.leftParen, "(", ⟨78, 79⟩⟩,
              .node .columnReference [.token ⟨.identifier, "c", ⟨79, 80⟩⟩],
              .token ⟨.rightParen, ")", ⟨80, 81⟩⟩]])
        ⟨.semicolon, ";", ⟨81, 82⟩⟩ := by
  have hspells : ∀ {kind : TokenKind} {t : Token}, t.kind = kind → Spells [kind] [.token t] :=
    fun h => ⟨_, _, rfl, h, rfl⟩
  have htype : ColumnPhrase .type
      [.node .typeName [.token ⟨.identifier, "INTEGER", ⟨27, 34⟩⟩]] :=
    .typed (show Spells (List.replicate (0 + 1) .identifier) _ from hspells rfl) .sizeless
  have hreferences : SpellsWords [.REFERENCES]
      [.token ⟨.keyword .REFERENCES, "REFERENCES", ⟨35, 45⟩⟩] := hspells rfl
  have haction : SpellsWords [.ON, .DELETE, .SET, .NULL]
      [.token ⟨.keyword .ON, "ON", ⟨48, 50⟩⟩, .token ⟨.keyword .DELETE, "DELETE", ⟨51, 57⟩⟩,
        .token ⟨.keyword .SET, "SET", ⟨58, 61⟩⟩, .token ⟨.keyword .NULL, "NULL", ⟨62, 66⟩⟩] :=
    ⟨_, _, rfl, rfl, _, _, rfl, rfl, _, _, rfl, rfl, hspells rfl⟩
  have hcolumn : Phrase (.operand 11) 1
      [.node .columnReference [.token ⟨.identifier, "c", ⟨79, 80⟩⟩]] :=
    .column (hspells rfl) List.mem_cons_self
  have hoperand := ColumnPhrase.operand (hspells (t := ⟨.leftParen, "(", ⟨78, 79⟩⟩) rfl) (by decide)
    (hcolumn.mono (Nat.zero_le _)).inner (hspells (t := ⟨.rightParen, ")", ⟨80, 81⟩⟩) rfl)
  refine (parse_columnDefinition (by exact rfl) (by exact rfl) htype (fun c hc => ?_)
    (by exact rfl)).1 _ [] (by decide +kernel)
  simp only [List.mem_cons, List.not_mem_nil, or_false] at hc
  rcases hc with rfl | rfl | rfl
  · exact (ColumnPhrase.references hreferences (hspells rfl) .noColumns
      (.action (by decide) (by decide) haction .noClauses) .noDeferral).constraint
  · exact (ColumnPhrase.null (hspells rfl)).constraint
  · exact (ColumnPhrase.check (hspells rfl) hoperand).constraint

end TolerantSql
