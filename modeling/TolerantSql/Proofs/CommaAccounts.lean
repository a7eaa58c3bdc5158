import TolerantSql.Proofs.CommaLists

/-!
# Commas and items in every statement

The grammar has three lists whose items are nodes: the columns of a query, the terms of
an order, and the columns that a foreign key refers to. Wherever they occur in a tree,
commas and items are accounted for. It is shown of the rules of the three nodes, whose
children are a list with a few tokens around it, and holds then of all nodes
(`Statement.nodes_of_keeps`).

Columns are counted exactly. A query is parsed only where `SELECT` has been seen, so
the list of its columns begins where nothing is known about the end of the input, and
says itself that it came too early. The other lists may begin behind a word that is
missing for want of input, and add nothing then.
-/

namespace TolerantSql

/-! ## Opening derivations -/

section Opening

variable {depth : Nat} {r yes no : Rule} {rules : List Rule} {test : Lookahead → Bool} {s : State}
  {out : Outcome}

theorem unfolds_all_nil : Unfolds depth (.rule (.all [])) s out ↔ out = s.stay := by
  refine ⟨fun h => ?_, fun h => h ▸ .done⟩
  cases h
  rfl

theorem unfolds_all_cons :
    Unfolds depth (.rule (.all (r :: rules))) s out ↔
      ∃ first second, Unfolds depth (.rule r) s first
        ∧ Unfolds depth (.rule (.all rules)) first.state second
        ∧ out = ⟨first.forest ++ second.forest, second.state⟩ := by
  refine ⟨fun h => ?_, fun ⟨first, second, h, h', hout⟩ => hout ▸ .seq h h'⟩
  cases h with
  | seq h h' => exact ⟨_, _, h, h', rfl⟩

theorem unfolds_branch :
    Unfolds depth (.rule (.branch test yes no)) s out ↔
      test s.lookahead = true ∧ Unfolds depth (.rule yes) s out
        ∨ test s.lookahead = false ∧ Unfolds depth (.rule no) s out := by
  constructor
  · intro h
    cases h with
    | look h =>
      dsimp only at h
      split at h
      · next htest => exact .inl ⟨htest, h⟩
      · next htest => exact .inr ⟨Bool.eq_false_iff.2 htest, h⟩
  · rintro (⟨htest, h⟩ | ⟨htest, h⟩)
    · exact .look (by rwa [htest, if_pos rfl])
    · exact .look (by rwa [htest, if_neg Bool.false_ne_true])

end Opening

/-! ## Rules with a list -/

/-- Nodes of any kind but one may be made, and no nonterminal is called. -/
def Places.without (kind : NodeKind) : Places := ⟨(· ≠ kind), fun _ _ _ => False, False⟩

section Lists

variable {kind : NodeKind} {label : String} {depth : Nat} {s : State} {out : Outcome}

theorem Forest.IsItem.leaf (h : Forest.IsItem kind label) (l : Leaf) : l.kind ≠ kind := by
  obtain ⟨htoken, hmissing, hexpecting, hend, -⟩ := h.kinds
  cases l with
  | token | placeholder => exact htoken
  | error e =>
    obtain ⟨diagnostic, message⟩ := e
    cases diagnostic with
    | missing => exact hmissing
    | expecting => exact hexpecting
    | unexpectedEof => exact hend

/-- **A rule that makes no items adds none.** -/
theorem Unfolds.kind_ne {r : Rule} (h : Unfolds depth (.rule r) s out) (hs : s.Sound)
    (hitem : Forest.IsItem kind label) (hr : ∀ v, r.Keeps (.without kind) v) :
    ∀ t ∈ out.forest, t.kind ≠ kind := by
  have hnodes : ∀ n ∈ Forest.nodes out.forest, n.1 ≠ kind :=
    h.nodes (p := .without kind) (Q := fun n => n.1 ≠ kind) (hitem.kind _ (by simp))
      (fun _ _ h => h) (fun hplaced => hplaced.elim) False.elim hs (hr _)
  intro t ht
  cases t with
  | leaf l => exact hitem.leaf l
  | node kind' f => exact hnodes _ (Forest.mem_nodes.2 ⟨_, ht, List.mem_cons_self⟩)

/-- Where the end has been reported, a list adds nothing. -/
theorem Unfolds.forest_of_reported {shape : State.ListShape} {item : Rule}
    (h : Unfolds depth (.rounds shape item .item) s out) (hs : s.Sound)
    (hreported : s.endReported = true) (heof : shape.startsItem .eof = false) :
    out.forest = [] := by
  have hcurrent : s.current.kind = .eof := by
    rw [State.current, TokenStream.current_nil (hs.honest hreported)]
    exact Token.kind_eq_eof hs.lawful.last
  have hend : s.atEof = true := by
    rw [State.atEof, Token.isEof, hcurrent]
    rfl
  have hround : State.listRound shape State.stay .item s = (s.stay, none) := by
    unfold State.listRound
    dsimp only
    rw [hcurrent, heof, hend, State.missing, hend, State.reportEnd, hreported]
    rfl
  cases h with
  | item hbegins _ _ =>
    rw [State.beginsItem, hcurrent, heof, Bool.and_false] at hbegins
    cases hbegins
  | round _ hround' _ => rw [hround] at hround'; cases hround'
  | last _ hround' => rw [hround] at hround'; cases hround'; rfl

/-- **A rule whose items are kept apart.** -/
def Rule.Spaces (kind : NodeKind) (depth : Nat) (r : Rule) : Prop :=
  ∀ s out, s.Sound → Unfolds depth (.rule r) s out → out.forest.Spaced kind

namespace Rule.Spaces

variable {r : Rule} {rules : List Rule}

/-- A list may begin anywhere. -/
theorem list {shape : State.ListShape} {item : Rule} (hkind : Forest.IsItem kind shape.label)
    (hitem : ∀ {s out}, shape.startsItem s.current.kind = true → Unfolds depth (.rule item) s out →
      ∃ g, out.forest = [.node kind g])
    (heof : shape.startsItem .eof = false) : (list shape item).Spaces kind depth := by
  intro s out hs h
  cases h with
  | list h =>
    cases hreported : s.endReported with
    | true =>
      rw [h.forest_of_reported hs hreported heof]
      exact Forest.spaced_nil
    | false => exact (h.commaList hitem hs fun _ => hreported).1.spaced hkind

/-- What stands before the items does not matter. -/
theorem before (hitem : Forest.IsItem kind label) (hr : ∀ v, r.Keeps (.without kind) v)
    (h : (all rules).Spaces kind depth) : (all (r :: rules)).Spaces kind depth := by
  intro s out hs hunfolds
  obtain ⟨first, second, hfirst, hsecond, rfl⟩ := unfolds_all_cons.1 hunfolds
  exact (h _ _ (hfirst.sound hs) hsecond).append_left (hfirst.kind_ne hs hitem hr)

/-- Neither does what stands behind them. -/
theorem behind (hitem : Forest.IsItem kind label) (h : r.Spaces kind depth)
    (hrules : ∀ v, (all rules).Keeps (.without kind) v) : (all (r :: rules)).Spaces kind depth := by
  intro s out hs hunfolds
  obtain ⟨first, second, hfirst, hsecond, rfl⟩ := unfolds_all_cons.1 hunfolds
  exact (h _ _ hs hfirst).append_right (hsecond.kind_ne (hfirst.sound hs) hitem hrules)

theorem onlyIf {test : Lookahead → Bool} (h : r.Spaces kind depth) :
    (onlyIf test r).Spaces kind depth := by
  intro s out hs hunfolds
  obtain ⟨-, hunfolds⟩ | ⟨-, hunfolds⟩ := unfolds_branch.1 hunfolds
  · exact h s out hs hunfolds
  · cases hunfolds
    exact Forest.spaced_nil

end Rule.Spaces

/-- A rule for a node adds one node. -/
theorem Unfolds.exists_node {body : Rule} (h : Unfolds depth (.rule (.node kind body)) s out) :
    ∃ g, out.forest = [.node kind g] := by
  cases h
  exact ⟨_, rfl⟩

end Lists

/-! ## The three lists -/

namespace Rule

variable {depth : Nat} {body : Rule}

theorem isItem_resultColumn : Forest.IsItem .resultColumn "result column" := ⟨by decide, by decide⟩

theorem isItem_orderingTerm : Forest.IsItem .orderingTerm "ordering term" := ⟨by decide, by decide⟩

theorem isItem_columnName : Forest.IsItem .columnName "column name" := ⟨by decide, by decide⟩

theorem spaces_select (h : .node .select body = select) : body.Spaces .resultColumn depth := by
  cases h
  have hitem := isItem_resultColumn
  exact .before hitem (by simp) <| .before hitem (by simp) <|
    .behind hitem (.list hitem (fun _ h => h.exists_node) rfl) (by simp)

theorem spaces_orderBy (h : .node .orderBy body = orderBy) : body.Spaces .orderingTerm depth := by
  cases h
  have hitem := isItem_orderingTerm
  exact .before hitem (by simp) <| .before hitem (by simp) <|
    .behind hitem (.list hitem (fun _ h => h.exists_node) rfl) (by simp)

/-- Where a name begins, there is a node for it. -/
theorem exists_node_name {kind : NodeKind} {what : String} {s : State} {out : Outcome}
    (hname : s.current.kind.isName = true) (h : Unfolds depth (.rule (name kind what)) s out) :
    ∃ g, out.forest = [.node kind g] := by
  obtain ⟨-, h⟩ | ⟨hnot, -⟩ := unfolds_branch.1 h
  · exact h.exists_node
  · exact absurd hname (Bool.eq_false_iff.1 hnot)

theorem spaces_foreignKeyClause (h : .node .foreignKeyClause body = foreignKeyClause) :
    body.Spaces .columnName depth := by
  cases h
  have hitem := isItem_columnName
  have hcolumns : (list ⟨"column name", TokenKind.isName, .columnNames⟩
      (name .columnName "column name")).Spaces .columnName depth :=
    .list hitem exists_node_name rfl
  exact .before hitem (by simp) <| .before hitem (by simp [Places.without]) <|
    .behind hitem (.onlyIf (.before hitem (by simp) (.behind hitem hcolumns (by simp))))
      (by simp [foreignKeyAction, deferrableClause])

end Rule

/-- **Commas and columns of a query balance.** -/
theorem Unfolds.tally_select {depth : Nat} {body : Rule} {s : State} {out : Outcome}
    (hbody : .node .select body = Rule.select) (h : Unfolds depth (.rule body) s out)
    (hs : s.Sound) (hselect : s.lookahead.isKeyword .SELECT = true) :
    out.forest.countP Tree.isComma + out.forest.count Forest.missingComma + 1
      = out.forest.countP (·.kind == .resultColumn)
        + out.forest.count (.error (.missing "missing result column"))
        + out.forest.countP (·.kind == .errorUnexpectedEof) := by
  cases hbody
  obtain ⟨first, rest, hfirst, h₁, rfl⟩ := unfolds_all_cons.1 h
  obtain ⟨second, rest, hsecond, h₂, rfl⟩ := unfolds_all_cons.1 h₁
  obtain ⟨columns, rest, hcolumns, h₃, rfl⟩ := unfolds_all_cons.1 h₂
  obtain rfl := unfolds_all_nil.1 h₃
  cases hfirst
  have hkind : s.current.kind = .keyword .SELECT := beq_iff_eq.1 hselect
  have hreported : s.take.state.endReported = false := by
    refine hs.endReported ?_
    rw [State.atEof, Token.isEof, hkind]
    rfl
  have hword : second.state.endReported = false
      ∧ (second.forest = [] ∨ ∃ u, second.forest = [.token u] ∧ u.kind ≠ .comma) := by
    obtain ⟨hword, h⟩ | ⟨-, h⟩ := unfolds_branch.1 hsecond
    · cases h
      refine ⟨hreported, .inr ⟨_, rfl, fun hcomma => ?_⟩⟩
      rw [Lookahead.isKeywordIn, State.lookahead, hcomma] at hword
      cases hword
    · cases h
      exact ⟨hreported, .inl rfl⟩
  cases hcolumns with
  | list hcolumns =>
    obtain ⟨hreported', hforest⟩ := hword
    have htally := (hcolumns.commaList (fun _ h => h.exists_node) (hsecond.sound hs.take)
      fun _ => hreported').1.tally Rule.isItem_resultColumn
    obtain hforest | ⟨u, hforest, hu⟩ := hforest
    · simpa [State.take, State.stay, hforest, hkind] using htally
    · simpa [State.take, State.stay, hforest, hkind, hu] using htally

/-- **Nodes that hold a list**, with the nodes that are its items. -/
def commaLists : List (NodeKind × NodeKind) :=
  [(.select, .resultColumn), (.orderBy, .orderingTerm), (.foreignKeyClause, .columnName)]

/-- **A node whose items and commas are accounted for.** -/
structure Itemized (n : NodeKind × Forest) : Prop where
  columns : n.1 = .select →
    n.2.countP Tree.isComma + n.2.count Forest.missingComma + 1
      = n.2.countP (·.kind == .resultColumn)
        + n.2.count (.error (.missing "missing result column"))
        + n.2.countP (·.kind == .errorUnexpectedEof)
  spaced : ∀ item, (n.1, item) ∈ commaLists → n.2.Spaced item

/-- **Where nodes with a list are made**: a query is begun by its keyword. -/
def listPlaces : Places where
  free kind := kind ∉ commaLists.map Prod.fst
  placed kind body v := .node kind body = Rule.select ∧ v.isKeyword .SELECT = true
    ∨ .node kind body = Rule.orderBy ∨ .node kind body = Rule.foreignKeyClause
  calls := True

/-- Of most nodes nothing is asked. -/
theorem itemized_of_free {kind : NodeKind} (hkind : listPlaces.free kind) (f : Forest) :
    Itemized (kind, f) where
  columns hselect := absurd (by rw [show kind = .select from hselect]; decide) hkind
  spaced item hitem := absurd (List.mem_map_of_mem (f := Prod.fst) hitem) hkind

theorem itemized_of_placed {depth : Nat} {kind : NodeKind} {body : Rule} {s : State} {out : Outcome}
    (hplaced : listPlaces.placed kind body s.lookahead) (hs : s.Sound)
    (h : Unfolds depth (.rule body) s out) : Itemized (kind, out.forest) := by
  obtain ⟨hbody, hselect⟩ | hbody | hbody := hplaced
  · obtain rfl : kind = .select := by cases hbody; rfl
    refine ⟨fun _ => h.tally_select hbody hs hselect, fun item hitem => ?_⟩
    obtain rfl : item = .resultColumn := by simpa [commaLists] using hitem
    exact Rule.spaces_select hbody s out hs h
  · obtain rfl : kind = .orderBy := by cases hbody; rfl
    refine ⟨nofun, fun item hitem => ?_⟩
    obtain rfl : item = .orderingTerm := by simpa [commaLists] using hitem
    exact Rule.spaces_orderBy hbody s out hs h
  · obtain rfl : kind = .foreignKeyClause := by cases hbody; rfl
    refine ⟨nofun, fun item hitem => ?_⟩
    obtain rfl : item = .columnName := by simpa [commaLists] using hitem
    exact Rule.spaces_foreignKeyClause hbody s out hs h

/-! ## The rules of the grammar -/

@[simp] theorem listPlaces_free {kind : NodeKind} : listPlaces.free kind
    ↔ kind ≠ .select ∧ kind ≠ .orderBy ∧ kind ≠ .foreignKeyClause := by
  simp [listPlaces, commaLists]

@[simp] theorem listPlaces_calls : listPlaces.calls := trivial

namespace Rule

variable {v : Lookahead}

@[simp] theorem keeps_resultColumn : resultColumn.Keeps listPlaces v := by
  simp [resultColumn, columnAlias, expr]

@[simp] theorem keeps_select (h : v.isKeyword .SELECT = true) : select.Keeps listPlaces v :=
  ⟨.inr (.inl ⟨rfl, h⟩), by simp⟩

@[simp] theorem keeps_subquery : subquery.Keeps listPlaces v := by
  simp +contextual [subquery]

@[simp] theorem keeps_orderBy : orderBy.Keeps listPlaces v :=
  ⟨.inr (.inr (.inl rfl)), by simp [orderingTerm, expr]⟩

@[simp] theorem keeps_foreignKeyClause : foreignKeyClause.Keeps listPlaces v :=
  ⟨.inr (.inr (.inr rfl)), by simp [foreignKeyAction, deferrableClause]⟩

@[simp] theorem keeps_expressionList : expressionList.Keeps listPlaces v := by
  simp [expressionList, expr]

@[simp] theorem keeps_typeName : typeName.Keeps listPlaces v := by
  simp [typeName, signedNumber]

@[simp] theorem keeps_qualifiedName (what : String) :
    (qualifiedName .tableName what).Keeps listPlaces v := by
  simp [qualifiedName]

@[simp] theorem keeps_overClause : overClause.Keeps listPlaces v := by
  simp [overClause, windowDefinition, frameSpec, frameBound, frameExclude]

@[simp] theorem keeps_functionCall : functionCall.Keeps listPlaces v := by
  simp [functionCall, filterClause, expr]

@[simp] theorem keeps_caseExpr : caseExpr.Keeps listPlaces v := by
  simp [caseExpr, whenArm, elseArm, expr]

@[simp] theorem keeps_primary : primary.Keeps listPlaces v := by
  simp [primary, parenthesized, existsTest, cast, raise, columnReference, columnPart,
    missingExpression, expr]

@[simp] theorem keeps_inTarget : inTarget.Keeps listPlaces v := by
  simp [inTarget]

@[simp] theorem keeps_unary : unary.Keeps listPlaces v := by
  simp [unary]

theorem keeps_binary {level : Level} {operand : Rule} (h : ∀ v, operand.Keeps listPlaces v) :
    (binary level operand).Keeps listPlaces v := by
  have hkind : listPlaces.free level.nodeKind := by cases level <;> simp [Level.nodeKind]
  exact ⟨hkind, h v, by simp [h]⟩

theorem keeps_comparison (v : Lookahead) : comparison.Keeps listPlaces v := by
  have hcollate (v : Lookahead) : collate.Keeps listPlaces v := by simp [collate]
  exact keeps_binary fun _ => keeps_binary fun _ => keeps_binary fun _ => keeps_binary fun _ =>
    keeps_binary hcollate

theorem keeps_negation (v : Lookahead) : negation.Keeps listPlaces v := by
  have hlink (v v' : Lookahead) : ((equalityLink? v).getD done).Keeps listPlaces v' :=
    equalityLink_induct (P := fun r => ∀ v', r.Keeps listPlaces v') (fun _ => trivial)
      (fun h h' v' => ⟨h v', h'⟩) (fun test h v' => by simp [h]) (fun _ => trivial)
      (fun word v' => keeps_expectKeyword word) (fun _ => keeps_inTarget) keeps_comparison v v'
  simp [negation, equality, keeps_comparison, hlink]

/-- **Nonterminals make nodes with a list only where these begin.** -/
theorem keeps_ofNonterminal (goal : Nonterminal) (v : Lookahead) :
    (ofNonterminal goal).Keeps listPlaces v := by
  cases goal with
  | expression => exact keeps_binary fun _ => keeps_binary keeps_negation
  | negation => exact keeps_negation v
  | unary => exact keeps_unary

theorem keeps_alterTable : alterTable.Keeps listPlaces v := by
  have hconstraint (v : Lookahead) : columnConstraint.Keeps listPlaces v := by
    simp [columnConstraint, constraintBody, conflictClause, parenthesizedExpr, defaultValue,
      signedNumber, generatedColumn, expr]
  simp [alterTable, alterAction, columnDefinition, hconstraint]

theorem keeps_explain (v : Lookahead) : explain.Keeps listPlaces v := by
  simp [explain]

/-- **So do the rules of statements.** -/
theorem keeps_ofStatementKeyword {r : Rule} (h : ofStatementKeyword? v.current = some r) :
    r.Keeps listPlaces v := by
  unfold ofStatementKeyword? at h
  split at h <;> cases h
  · exact keeps_alterTable
  · next hselect => exact keeps_select (beq_iff_eq.2 hselect)
  · simp [analyze]
  · simp [attach, expr]
  · simp [begin]

end Rule

/-! ## Every statement -/

/-- **Commas and items are accounted for.** At every query in a tree, the commas and the
reports of missing ones are one less than the columns, the reports of missing ones and
those of the end of the input. And in the lists of a query, an order and a foreign key,
one report of a missing comma stands between two neighbouring items if there is no
comma, and none if there is one. -/
theorem parse_accounts_for_commas (source : String) (statement : Statement)
    (hmem : statement ∈ parse source) (n : NodeKind × Forest) (hn : n ∈ statement.tree.nodes) :
    (n.1 = .select →
      n.2.countP Tree.isComma + n.2.count (.error (.missing "missing comma")) + 1
        = n.2.countP (·.kind == .resultColumn)
          + n.2.count (.error (.missing "missing result column"))
          + n.2.countP (·.kind == .errorUnexpectedEof))
    ∧ ∀ item, (n.1, item) ∈ [(.select, .resultColumn), (.orderBy, .orderingTerm),
        (.foreignKeyClause, .columnName)] →
      ∀ (before : Forest) (x : Tree) (between : Forest) (y : Tree) (after : Forest),
        n.2 = before ++ x :: (between ++ y :: after) → x.kind = item → y.kind = item →
        (∀ t ∈ between, t.kind ≠ item) →
        (.error (.missing "missing comma") ∈ between ↔ ∀ t ∈ between, t.isComma = false)
          ∧ between.count (.error (.missing "missing comma")) ≤ 1 := by
  have hitemized : ∀ n ∈ statement.tree.nodes, Itemized n :=
    Statement.nodes_of_keeps (p := listPlaces) (by simp) (by simp)
      (fun _ f h => itemized_of_free h f) itemized_of_placed (fun _ => Rule.keeps_ofNonterminal)
      Rule.keeps_explain Rule.keeps_ofStatementKeyword hmem
  exact ⟨(hitemized n hn).columns, (hitemized n hn).spaced⟩

/-- A query within a query, with two columns side by side and a comma at the end of the
input. -/
theorem parse_accounts_for_commas_nested :
    ∃ statement ∈ parse "SELECT a, , b 1, (SELECT f() g(),", ∃ n ∈ statement.tree.nodes,
      n.1 = .select
      ∧ n.2.countP Tree.isComma + n.2.count (.error (.missing "missing comma")) + 1
        = n.2.countP (·.kind == .resultColumn)
          + n.2.count (.error (.missing "missing result column"))
          + n.2.countP (·.kind == .errorUnexpectedEof)
      ∧ ∃ before x between y after, n.2 = before ++ x :: (between ++ y :: after)
        ∧ x.kind = .resultColumn ∧ y.kind = .resultColumn
        ∧ (∀ t ∈ between, t.kind ≠ .resultColumn)
        ∧ (.error (.missing "missing comma") ∈ between ↔ ∀ t ∈ between, t.isComma = false)
        ∧ between.count (.error (.missing "missing comma")) ≤ 1 := by
  have hfound : (parse "SELECT a, , b 1, (SELECT f() g(),").any (fun statement =>
      statement.tree.nodes.any fun n => n.1 == .select && n.2.map Tree.kind
        == [.token, .resultColumn, .errorMissing, .resultColumn, .token, .errorUnexpectedEof])
      = true := by
    decide +kernel
  obtain ⟨statement, hmem, hany⟩ := List.any_eq_true.1 hfound
  obtain ⟨⟨kind, f⟩, hn, hkinds⟩ := List.any_eq_true.1 hany
  rw [Bool.and_eq_true, beq_iff_eq, beq_iff_eq] at hkinds
  obtain ⟨rfl, hkinds⟩ := hkinds
  obtain ⟨first, _, rfl, -, hkinds⟩ := List.map_eq_cons_iff.1 hkinds
  obtain ⟨x, _, rfl, hx, hkinds⟩ := List.map_eq_cons_iff.1 hkinds
  obtain ⟨report, _, rfl, hreport, hkinds⟩ := List.map_eq_cons_iff.1 hkinds
  obtain ⟨y, after, rfl, hy, -⟩ := List.map_eq_cons_iff.1 hkinds
  obtain ⟨htally, hspaced⟩ := parse_accounts_for_commas _ statement hmem _ hn
  have hbetween : ∀ t ∈ [report], t.kind ≠ .resultColumn := by simp [hreport]
  exact ⟨statement, hmem, _, hn, rfl, htally rfl, [first], x, [report], y, after, rfl, hx, hy,
    hbetween, hspaced .resultColumn (by simp) [first] x [report] y after rfl hx hy hbetween⟩

end TolerantSql
