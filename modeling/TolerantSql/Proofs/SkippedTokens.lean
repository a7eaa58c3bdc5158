import TolerantSql.Proofs.GrammarNodes
import TolerantSql.Proofs.TokenConservation
import TolerantSql.Proofs.TreeNodes

/-!
# Nothing is skipped in silence

Tokens that fit nowhere are passed over, and a tree without errors should mean
that none were. Two things are shown of every node of every tree. Skipped tokens
are gathered in nodes of their own, which hold nothing else and stand directly
behind the error that announces them; and malformed tokens are found there and
nowhere else. A source whose statements have no errors has therefore no skipped
tokens, and no malformed ones either, since parsing loses none.

Children are moved from node to node while a tree is built, but always together
and in order, and what a step adds never begins with a node of skipped tokens, so no
such node is parted from its error (`Forest.Accounted.append`). Whether an error is
reported at all hangs on the end of the input and on what was reported before; a
step that skips something is not at the end of the input, and there it is.
-/

namespace TolerantSql

/-! ## What is asked of nodes and of forests -/

/-- **A node in which skipped tokens are accounted for.** Each of its children that
holds skipped tokens stands behind an error; if it holds skipped tokens itself,
these are all it holds; and malformed tokens are among its children only then. -/
structure Accounted (n : NodeKind × Forest) : Prop where
  announced : ∀ (i : Nat) (skipped : Forest), n.2[i]? = some (.node .skipped skipped) →
    ∃ j message, i = j + 1 ∧ n.2[j]? = some (.error (.expecting message))
  skipped : n.1 = .skipped →
    n.2 ≠ [] ∧ ∀ child ∈ n.2, ∃ t, child = .token t ∧ t.kind.endsStatement = false
  malformed : ∀ t, .token t ∈ n.2 → t.kind.isError = true → n.1 = .skipped

/-- **Trees side by side in which skipped tokens are accounted for**, wherever the
trees are put together. -/
structure Forest.Accounted (f : Forest) : Prop where
  announced : ∀ (i : Nat) (skipped : Forest), f[i]? = some (.node .skipped skipped) →
    ∃ j message, i = j + 1 ∧ f[j]? = some (.error (.expecting message))
  proper : ∀ t, .token t ∈ f → t.kind.isError = false
  inner : ∀ n ∈ nodes f, TolerantSql.Accounted n

namespace Forest.Accounted

variable {f g : Forest}

/-- Leaves other than malformed tokens. -/
theorem of_leaves (hleaves : ∀ t ∈ f, ∃ l, t = .leaf l)
    (hproper : ∀ t, .token t ∈ f → t.kind.isError = false) : f.Accounted where
  announced i skipped hi := by
    obtain ⟨l, hl⟩ := hleaves _ (List.mem_of_getElem? hi)
    cases hl
  proper := hproper
  inner n hn := by
    rw [nodes_eq_nil hleaves] at hn
    cases hn

theorem nil : Accounted [] := of_leaves nofun nofun

theorem token {t : Token} (ht : t.kind.isError = false) : Accounted [.token t] :=
  of_leaves (fun _ ht => ⟨_, List.mem_singleton.1 ht⟩) fun _ ht' => by
    cases List.mem_singleton.1 ht'
    exact ht

/-- **Forests can be put together**: none begins with skipped tokens. -/
theorem append (hf : f.Accounted) (hg : g.Accounted) : (f ++ g).Accounted where
  announced i skipped hi := by
    by_cases hless : i < f.length
    · rw [List.getElem?_append_left hless] at hi
      obtain ⟨j, message, rfl, hj⟩ := hf.announced i skipped hi
      refine ⟨j, message, rfl, ?_⟩
      rw [List.getElem?_append_left (by omega), hj]
    · rw [List.getElem?_append_right (by omega)] at hi
      obtain ⟨j, message, hij, hj⟩ := hg.announced _ skipped hi
      refine ⟨j + f.length, message, by omega, ?_⟩
      rw [List.getElem?_append_right (by omega), Nat.add_sub_cancel, hj]
  proper t ht := (List.mem_append.1 ht).elim (hf.proper t) (hg.proper t)
  inner := by
    rw [nodes_append]
    exact List.forall_mem_append.2 ⟨hf.inner, hg.inner⟩

/-- Gathering trees in a node that is not for skipped tokens. -/
theorem node (hf : f.Accounted) {kind : NodeKind} (hkind : kind ≠ .skipped) :
    Accounted [.node kind f] where
  announced i skipped hi := by
    have hmem := List.mem_singleton.1 (List.mem_of_getElem? hi)
    cases hmem
    exact absurd rfl hkind
  proper t ht := by cases List.mem_singleton.1 ht
  inner := by
    rw [nodes_cons, nodes_nil, List.append_nil, Tree.nodes_node]
    refine List.forall_mem_cons.2 ⟨⟨hf.announced, fun h => absurd h hkind, fun t ht herror => ?_⟩,
      hf.inner⟩
    rw [hf.proper t ht] at herror
    cases herror

/-- **Skipped tokens behind the error that announces them.** -/
theorem skipped (message : String) (hne : f ≠ [])
    (htokens : ∀ child ∈ f, ∃ t, child = .token t ∧ t.kind.endsStatement = false) :
    Accounted [.error (.expecting message), .node .skipped f] where
  announced i skipped hi := by
    cases i with
    | zero => cases hi
    | succ j =>
      cases j with
      | zero => exact ⟨0, message, rfl, rfl⟩
      | succ j => cases hi
  proper t ht := by simp at ht
  inner := by
    have hleaves : nodes f = [] := nodes_eq_nil fun child hchild => by
      obtain ⟨t, rfl, -⟩ := htokens child hchild
      exact ⟨_, rfl⟩
    simp only [nodes_cons, nodes_nil, Tree.nodes_node, Tree.nodes_leaf, hleaves, List.nil_append,
      List.append_nil, List.mem_singleton, forall_eq]
    refine ⟨fun i inner hi => ?_, fun _ => ⟨hne, htokens⟩, fun _ _ _ => rfl⟩
    obtain ⟨t, ht, -⟩ := htokens _ (List.mem_of_getElem? hi)
    cases ht

end Forest.Accounted

/-- **What a report adds**: errors, or an error with the tokens that are skipped
behind it. -/
inductive Forest.Reports : Forest → Prop
  | errors {f : Forest} (h : ∀ t ∈ f, ∃ e, t = .error e) : Reports f
  | skipped (message : String) {f : Forest} (hne : f ≠ [])
    (htokens : ∀ child ∈ f, ∃ t, child = .token t ∧ t.kind.endsStatement = false) :
    Reports [.error (.expecting message), .node .skipped f]

namespace Forest.Reports

theorem nil : Reports [] := .errors nofun

theorem error (e : SyntaxError) : Reports [.error e] :=
  .errors fun _ ht => ⟨e, List.mem_singleton.1 ht⟩

/-- Reports account for what is skipped. -/
theorem accounted {f : Forest} (h : f.Reports) : f.Accounted := by
  cases h with
  | errors h =>
    refine .of_leaves (fun t ht => ?_) (fun t ht => ?_)
    · obtain ⟨e, rfl⟩ := h t ht
      exact ⟨_, rfl⟩
    · obtain ⟨e, he⟩ := h _ ht
      cases he
  | skipped message hne htokens => exact .skipped message hne htokens

end Forest.Reports

/-! ## Steps -/

namespace State

variable {s : State}

/-- Taking tokens while a condition holds adds nothing but tokens. -/
theorem forest_takeWhile (p : Token → Bool) (s : State) :
    ∀ child ∈ (s.takeWhile p).forest, ∃ t, child = .token t := by
  rw [takeWhile_eq]
  exact List.forall_mem_map.2 fun l _ => ⟨l.token, rfl⟩

theorem forest_takeBalanced (s : State) :
    ∀ child ∈ s.takeBalanced.forest, ∃ t, child = .token t := by
  rw [takeBalanced]
  generalize 0 = depth
  generalize s.input.pending = pending
  induction pending generalizing s depth with
  | nil => exact List.forall_mem_nil _
  | cons l rest ih =>
    have htake : ∀ depth, ∀ child ∈ (s.take.andThen (takeBalanced.go depth rest)).forest,
        ∃ t, child = .token t := fun depth => List.forall_mem_cons.2 ⟨⟨_, rfl⟩, ih _ depth⟩
    rw [takeBalanced.go]
    split
    · exact List.forall_mem_nil _
    · split
      · exact List.forall_mem_nil _
      · exact htake depth
    · split
      · exact List.forall_mem_nil _
      · exact htake (depth - 1)
    · exact htake (depth + 1)
    · exact htake depth

/-- Tokens that a step takes do not end the statement. -/
theorem inside_of_took {taken : List Lexeme} {out : Outcome} (h : Took taken s out)
    (htokens : ∀ child ∈ out.forest, ∃ t, child = .token t) :
    ∀ child ∈ out.forest, ∃ t, child = .token t ∧ t.kind.endsStatement = false := by
  intro child hchild
  obtain ⟨t, rfl⟩ := htokens child hchild
  have hterminal : t ∈ Forest.terminals out.forest :=
    List.mem_filterMap.2 ⟨.token t, Forest.mem_leaves.2 ⟨_, hchild, List.mem_singleton_self _⟩, rfl⟩
  rw [h.terminals] at hterminal
  obtain ⟨l, hl, rfl⟩ := List.mem_map.1 hterminal
  exact ⟨l.token, rfl, h.inside l hl⟩

theorem forest_add (e : SyntaxError) (s : State) : ∀ t ∈ (s.add e).forest, ∃ e, t = .error e :=
  fun _ ht => ⟨e, List.mem_singleton.1 ht⟩

theorem forest_reportEnd (s : State) : ∀ t ∈ s.reportEnd.forest, ∃ e, t = .error e := by
  rw [reportEnd]
  split
  · exact List.forall_mem_nil _
  · exact forest_add _ _

theorem reports_missing (s : State) (announced : Bool) (what : String) :
    (s.missing announced what).forest.Reports := by
  rw [missing]
  split
  · exact .errors (forest_reportEnd s)
  · exact .error _

theorem forest_report (s : State) (announced : Bool) (message : String) :
    ∀ t ∈ (s.report announced message).forest, ∃ e, t = .error e := by
  cases announced
  · exact forest_add _ s
  · rw [report, if_pos rfl, expecting]
    split
    · exact forest_reportEnd s
    · exact forest_add _ _

theorem reports_expecting (s : State) (message : String) : (s.expecting message).forest.Reports :=
  .errors (forest_report s true message)

/-- A step takes no malformed token. -/
theorem accounted_shift (s : State) : s.shift.forest.Accounted := by
  rw [shift]
  split
  · exact .nil
  · next hstops =>
    rw [Bool.or_eq_true, not_or, Bool.not_eq_true, Bool.not_eq_true] at hstops
    exact .token hstops.2

/-- Behind its error, skipping adds nothing or a node of skipped tokens. -/
theorem forest_skipUntil (sync : StopSet) (hs : s.input.Lawful) (hend : s.atEof = false) :
    (s.skipUntil fun t => sync t.kind).2.forest = []
      ∨ ∃ f, (s.skipUntil fun t => sync t.kind).2.forest = [.node .skipped f] ∧ f ≠ []
        ∧ ∀ child ∈ f, ∃ t, child = .token t ∧ t.kind.endsStatement = false := by
  have htook := Took.takeWhile (p := fun kind => !sync kind) sync.not_semicolon hs
  rw [skipUntil, hend, if_neg Bool.false_ne_true]
  split_ifs with hcurrent
  · exact .inl rfl
  · have hinside := inside_of_took htook (forest_takeWhile _ s)
    refine .inr ⟨_, rfl, fun hnil => ?_, hinside⟩
    -- the current token is not one to stop at, so it is among those taken
    have hterminals := htook.terminals
    rw [hnil] at hterminals
    refine takeWhile_pending_ne_nil (p := fun t => !sync t.kind) hs hend ?_
      (List.map_eq_nil_iff.1 hterminals.symm)
    rw [Bool.eq_false_of_not_eq_true hcurrent]
    rfl

/-- **Recovery reports that something else was expected**, and adds the tokens it skips
in a node. -/
theorem forest_recover (hs : s.input.Lawful) (hend : s.atEof = false) (announced : Bool)
    (message : String) (sync : StopSet) :
    ∃ skipped, (s.recover announced message sync).forest = .error (.expecting message) :: skipped
      ∧ (skipped = [] ∨ ∃ f, skipped = [.node .skipped f] ∧ f ≠ []
        ∧ ∀ child ∈ f, ∃ t, child = .token t ∧ t.kind.endsStatement = false) := by
  have hs' := (Took.report s announced message).lawful hs
  rw [recover, Outcome.andThen, forest_report_eq hend]
  exact ⟨_, rfl, forest_skipUntil sync hs' (by rw [Took.atEof_report, hend])⟩

theorem reports_recover (hs : s.input.Lawful) (announced : Bool) (message : String)
    (sync : StopSet) : (s.recover announced message sync).forest.Reports := by
  cases hend : s.atEof with
  | true =>
    -- at the end of the input there is nothing to skip
    rw [recover, Outcome.andThen, skipUntil, Took.atEof_report, hend, if_pos rfl]
    refine .errors (List.forall_mem_append.2 ⟨forest_report s announced message, ?_⟩)
    split
    · exact List.forall_mem_nil _
    · exact forest_reportEnd _
  | false =>
    obtain ⟨skipped, hforest, rfl | ⟨f, rfl, hne, hf⟩⟩ :=
      forest_recover hs hend announced message sync
    · rw [hforest]
      exact .error _
    · rw [hforest]
      exact .skipped message hne hf

theorem reports_cutOff (hs : s.input.Lawful) : s.cutOff.forest.Reports := by
  have hexpecting := Took.expecting s "expression nested too deeply"
  obtain ⟨taken, htook⟩ := Took.takeBalanced (hexpecting.lawful hs)
  have hinside := inside_of_took htook (forest_takeBalanced _)
  rw [cutOff, Outcome.andThen]
  dsimp only
  split
  · rw [stay, List.append_nil]
    exact reports_expecting s _
  · next hskips =>
    -- something is skipped, so the input has not ended
    have hend : s.atEof = false := by
      rw [atEof_eq hs]
      refine List.isEmpty_eq_false_iff.2 fun hnil => hskips ?_
      have hpending : (s.expecting "expression nested too deeply").state.input.pending = [] :=
        hexpecting.pending.symm.trans hnil
      rw [takeBalanced, hpending]
      rfl
    have hforest := forest_report_eq hend true "expression nested too deeply"
    rw [report, if_pos rfl] at hforest
    rw [hforest]
    exact .skipped _ (fun hnil => hskips (List.isEmpty_iff.2 hnil)) hinside

end State

/-! ## Rules and statements -/

/-- Skipped tokens are accounted for in what a rule adds. -/
theorem accounted_rule {rule : Rule} (hrule : rule.Makes (· ≠ .skipped)) {s : State}
    (hs : s.input.Lawful) : (rule.parse s).forest.Accounted := by
  have hinvariant : StepInvariant (· ≠ .skipped)
      fun s out => (∃ taken, Took taken s out) ∧ out.forest.Accounted :=
    { lawful := fun ⟨⟨_, htook⟩, _⟩ hs => htook.lawful hs
      stay := fun s => ⟨Took.stepInvariant.stay s, .nil⟩
      andThen := fun ⟨htook, hf⟩ ⟨htook', hg⟩ =>
        ⟨Took.stepInvariant.andThen htook htook', hf.append hg⟩
      wrap := fun ⟨htook, hf⟩ kind hkind =>
        ⟨Took.stepInvariant.wrap htook kind trivial, hf.node hkind⟩
      shift := fun s hs => ⟨Took.stepInvariant.shift s hs, s.accounted_shift⟩
      missing := fun s announced what hs =>
        ⟨Took.stepInvariant.missing s announced what hs,
          (s.reports_missing announced what).accounted⟩
      expecting := fun s message hs =>
        ⟨Took.stepInvariant.expecting s message hs, (s.reports_expecting message).accounted⟩
      recover := fun s announced message sync hs =>
        ⟨Took.stepInvariant.recover s announced message sync hs,
          (State.reports_recover hs announced message sync).accounted⟩
      cutOff := fun s hs => ⟨Took.stepInvariant.cutOff s hs, (State.reports_cutOff hs).accounted⟩ }
  exact (hinvariant.rule Rule.makes_ofNonterminal hrule s hs).2

namespace State

variable {s : State}

/-- **What holds of the parts of a statement holds of the statement**: of what its rules
add, of reports, and of the token that ends it. -/
theorem statement_induct {P : Forest → Prop}
    (append : ∀ {f g : Forest}, P f → P g → P (f ++ g))
    (reports : ∀ {f : Forest}, f.Reports → P f)
    (last : ∀ {t : Token}, t.kind.endsStatement = true → P [.token t])
    (explain : ∀ {s : State}, s.input.Lawful → P (Rule.explain.parse s).forest)
    (rule : ∀ {kind : TokenKind} {r : Rule} {s : State}, Rule.ofStatementKeyword? kind = some r →
      s.input.Lawful → P (r.parse s).forest)
    (hs : s.input.Lawful) : P s.statement.forest := by
  have hfinish {s : State} (hs : s.input.Lawful) : P s.finish.forest := by
    rw [finish]
    split
    · next hend => exact last hend
    · exact append (reports (reports_recover hs _ _ _))
        (last (atEnd_recover hs _ _ StopSet.endsStatement_of_terminator))
  have hbody {s : State} (hs : s.input.Lawful) (explained : Bool) :
      P (s.body explained).forest := by
    rw [body]
    split
    · next r hr =>
      obtain ⟨taken, htook⟩ := Took.rule r hs
      exact append (rule hr hs) (hfinish (htook.lawful hs))
    · split
      · cases explained
        · exact append (reports .nil) (hfinish hs)
        · exact append (reports (.error _)) (hfinish hs)
      · have htook := Took.recover hs false "expecting statement" .statement
        refine append (reports (reports_recover hs _ _ _)) ?_
        dsimp only
        split
        · exact hfinish (htook.lawful hs)
        · exact reports .nil
  obtain ⟨taken, htook⟩ := Took.rule Rule.explain hs
  exact append (explain hs) (hbody (htook.lawful hs) _)

/-- **Skipped tokens are accounted for in every statement.** -/
theorem accounted_statement (hs : s.input.Lawful) : s.statement.forest.Accounted := by
  refine statement_induct Forest.Accounted.append Forest.Reports.accounted (fun {t} hend => ?_)
    (accounted_rule Rule.makes_explain.ne_skipped)
    (fun hr => accounted_rule (Rule.makes_ofStatementKeyword hr).ne_skipped) hs
  -- the token that ends a statement is not malformed
  refine .token ?_
  cases hkind : t.kind <;> rw [hkind] at hend <;> first | rfl | cases hend

end State

theorem Statement.accounted {source : String} {statement : Statement}
    (hmem : statement ∈ parse source) : ∀ n ∈ statement.tree.nodes, Accounted n := by
  obtain ⟨parsed, hparsed, rfl⟩ := List.mem_map.1 hmem
  obtain ⟨input, hlawful, -, -, rfl⟩ :=
    TokenStream.exists_of_mem_parseAll (TokenStream.lawful_ofSource source) hparsed
  have hs : (State.start input).input.Lawful := hlawful
  have hroot : Forest.Accounted [.node .sqlStatement (State.start input).statement.forest] :=
    (State.accounted_statement hs).node nofun
  intro n hn
  exact hroot.inner n (Forest.mem_nodes.2 ⟨_, List.mem_cons_self, hn⟩)

/-! ## Accepted sources -/

/-- Behind skipped tokens there is an error. -/
theorem Statement.not_skipped {source : String} {statement : Statement}
    (hmem : statement ∈ parse source) (haccepted : statement.hasErrors = false)
    {n : NodeKind × Forest} (hn : n ∈ statement.tree.nodes) : n.1 ≠ .skipped := by
  intro hkind
  rcases Tree.exists_parent_of_node hn with hroot | ⟨parent, hparent, hchild⟩
  · rw [hkind] at hroot
    cases hroot
  · obtain ⟨i, hi⟩ := List.mem_iff_getElem?.1 hchild
    rw [hkind] at hi
    obtain ⟨j, message, -, hj⟩ := (Statement.accounted hmem parent hparent).announced i n.2 hi
    have hleaf : Leaf.error (.expecting message) ∈ statement.tree.leaves :=
      Tree.leaves_subset_of_mem_nodes hparent
        (Forest.mem_leaves.2 ⟨_, List.mem_of_getElem? hj, List.mem_singleton_self _⟩)
    have herror : SyntaxError.expecting message ∈ statement.tree.errors :=
      List.mem_filterMap.2 ⟨_, hleaf, rfl⟩
    rw [Statement.hasErrors, Tree.hasErrors, Bool.not_eq_false', List.isEmpty_iff] at haccepted
    rw [haccepted] at herror
    cases herror

/-- Every significant token of a source is a child of some node. -/
theorem exists_parent_of_token {source : String} {t : Token} (ht : t ∈ tokenize source)
    (hsignificant : t.isSignificant = true) :
    ∃ statement ∈ parse source, ∃ n ∈ statement.tree.nodes, .token t ∈ n.2 := by
  obtain ⟨tail, -, hall⟩ := TokenStream.terminals_parseAll (TokenStream.lawful_ofSource source)
  have hterminal : t ∈ (TokenStream.ofSource source).parseAll.flatMap
      (·.statement.tree.terminals) := by
    rw [hall, TokenStream.pending_ofSource]
    exact List.mem_append_left _ (List.mem_filter.2 ⟨ht, hsignificant⟩)
  obtain ⟨parsed, hparsed, hterminal⟩ := List.mem_flatMap.1 hterminal
  obtain ⟨leaf, hleaf, htoken⟩ := List.mem_filterMap.1 hterminal
  obtain rfl : leaf = .token t := by
    cases leaf with
    | token u => exact congrArg Leaf.token (Option.some.inj htoken)
    | _ => cases htoken
  obtain ⟨n, hn, hmem⟩ := Tree.exists_parent_of_leaf hleaf
  exact ⟨parsed.statement, List.mem_map_of_mem hparsed, n, hn, hmem⟩

/-- **Nothing is skipped in silence.** Whatever the source is, at each node of its
trees: a child that holds skipped tokens stands directly behind an error that says
what was expected, a node of skipped tokens holds at least one token and nothing
but tokens inside the statement, and a malformed token is a child of such a node.
So if no statement has an error, no node holds skipped tokens and no token of the
source is malformed. -/
theorem parse_accounts_for_skipped (source : String) :
    (∀ statement ∈ parse source, ∀ n ∈ statement.tree.nodes,
      (∀ (i : Nat) (skipped : Forest), n.2[i]? = some (.node .skipped skipped) →
        ∃ j message, i = j + 1 ∧ n.2[j]? = some (.error (.expecting message)))
      ∧ (n.1 = .skipped → n.2 ≠ []
        ∧ ∀ child ∈ n.2, ∃ t, child = .token t ∧ t.kind ≠ .semicolon ∧ t.kind ≠ .eof)
      ∧ ∀ t, .token t ∈ n.2 → t.kind.isError = true → n.1 = .skipped)
    ∧ ((∀ statement ∈ parse source, statement.hasErrors = false) →
      (∀ statement ∈ parse source, ∀ n ∈ statement.tree.nodes, n.1 ≠ .skipped)
      ∧ ∀ t ∈ tokenize source, t.kind.isError = false) := by
  refine ⟨fun statement hmem n hn => ?_, fun haccepted => ⟨fun statement hmem n hn => ?_, ?_⟩⟩
  · have haccounted := Statement.accounted hmem n hn
    refine ⟨haccounted.announced, fun hkind => ?_, haccounted.malformed⟩
    obtain ⟨hne, htokens⟩ := haccounted.skipped hkind
    refine ⟨hne, fun child hchild => ?_⟩
    obtain ⟨t, rfl, hinside⟩ := htokens child hchild
    refine ⟨t, rfl, fun hkind => ?_, fun hkind => ?_⟩
    · rw [hkind] at hinside
      cases hinside
    · rw [hkind] at hinside
      cases hinside
  · exact Statement.not_skipped hmem (haccepted statement hmem) hn
  · intro t ht
    by_contra herror
    rw [Bool.not_eq_false] at herror
    have hsignificant : t.isSignificant = true := by
      rw [Token.isSignificant, Token.isEof]
      cases hkind : t.kind <;> rw [hkind] at herror <;> first | rfl | cases herror
    -- a malformed token would have been skipped, behind an error
    obtain ⟨statement, hmem, n, hn, hchild⟩ := exists_parent_of_token ht hsignificant
    exact Statement.not_skipped hmem (haccepted statement hmem) hn
      ((Statement.accounted hmem n hn).malformed t hchild herror)

/-- A stray `@` is malformed, and is found among skipped tokens behind an error; in a
source of two accepted statements no token is malformed. -/
theorem parse_accounts_for_skipped_analyze :
    (∃ statement ∈ parse "ANALYZE t @ x;", ∃ n ∈ statement.tree.nodes,
      n.1 = .skipped ∧ n.2.length = 2)
    ∧ (∀ statement ∈ parse "ANALYZE t @ x;", ∀ n ∈ statement.tree.nodes,
      ∀ t, .token t ∈ n.2 → t.kind.isError = true → n.1 = .skipped)
    ∧ ∀ t ∈ tokenize "ANALYZE t; SELECT -- one\n 1", t.kind.isError = false := by
  have hskipped : (parse "ANALYZE t @ x;").any (fun statement =>
      statement.tree.nodes.any fun n => n.1 == .skipped && n.2.length == 2) = true := by
    decide +kernel
  have haccepted : (parse "ANALYZE t; SELECT -- one\n 1").all (fun statement =>
      !statement.hasErrors) = true := by
    decide +kernel
  refine ⟨?_, fun statement hmem n hn => ?_, ?_⟩
  · obtain ⟨statement, hmem, hany⟩ := List.any_eq_true.1 hskipped
    obtain ⟨n, hn, hn'⟩ := List.any_eq_true.1 hany
    rw [Bool.and_eq_true, beq_iff_eq, beq_iff_eq] at hn'
    exact ⟨statement, hmem, n, hn, hn'⟩
  · exact ((parse_accounts_for_skipped _).1 statement hmem n hn).2.2
  · refine ((parse_accounts_for_skipped _).2 fun statement hmem => ?_).2
    simpa using List.all_eq_true.1 haccepted statement hmem

end TolerantSql
