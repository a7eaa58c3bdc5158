import TolerantSql.Proofs.Recursion

/-!
# Known runs

Where the tokens at the front of the input are known, so is what a rule does there.
`Reads` says that certain tokens come next, and `Rule.Runs` that a rule adds certain
trees and leaves off at a certain state. There is one lemma for each way to build a
rule, so that a run is shown the way the rule is written; nonterminals are taken for
their rules (`Nonterminal.parse_eq_run`).
-/

namespace TolerantSql

/-! ## Tokens to come -/

/-- **The tokens that come next**, and the state behind them. -/
def Reads : List Token → State → State → Prop
  | [], s, s' => s' = s
  | t :: ts, s, s' => s.current = t ∧ Reads ts s.advance s'

theorem reads_append {ts us : List Token} {s s'' : State} :
    Reads (ts ++ us) s s'' ↔ ∃ s', Reads ts s s' ∧ Reads us s' s'' := by
  induction ts generalizing s with
  | nil => exact ⟨fun h => ⟨s, rfl, h⟩, fun ⟨_, hs, h⟩ => hs ▸ h⟩
  | cons t ts ih =>
    refine ⟨fun ⟨ht, h⟩ => ?_, fun ⟨s', ⟨ht, h⟩, h'⟩ => ⟨ht, ih.2 ⟨s', h, h'⟩⟩⟩
    obtain ⟨s', hfirst, hsecond⟩ := ih.1 h
    exact ⟨s', ⟨ht, hfirst⟩, hsecond⟩

@[simp] theorem reads_nil {s s' : State} : Reads (Forest.terminals []) s s' ↔ s' = s := Iff.rfl

@[simp] theorem reads_token {t : Token} {f : Forest} {s s' : State} :
    Reads (Forest.terminals (.token t :: f)) s s'
      ↔ s.current = t ∧ Reads (Forest.terminals f) s.advance s' := Iff.rfl

@[simp] theorem reads_forest_append {f g : Forest} {s s'' : State} :
    Reads (Forest.terminals (f ++ g)) s s''
      ↔ ∃ s', Reads (Forest.terminals f) s s' ∧ Reads (Forest.terminals g) s' s'' := by
  rw [Took.terminals_append, reads_append]

@[simp] theorem reads_node {kind : NodeKind} {f g : Forest} {s s'' : State} :
    Reads (Forest.terminals (.node kind f :: g)) s s''
      ↔ ∃ s', Reads (Forest.terminals f) s s' ∧ Reads (Forest.terminals g) s' s'' := by
  have hnode : Forest.terminals (.node kind f :: g) = Forest.terminals (f ++ g) := by
    simp [Forest.terminals, Tree.leaves]
  rw [hnode, reads_forest_append]

theorem Reads.lawful {ts : List Token} {s s' : State} (h : Reads ts s s')
    (hs : s.input.Lawful) : s'.input.Lawful := by
  induction ts generalizing s with
  | nil => exact h ▸ hs
  | cons t ts ih => exact ih h.2 hs.advance

namespace State

theorem lookahead_current {s : State} {t : Token} {kind : TokenKind} (ht : s.current = t)
    (h : t.kind = kind) : s.lookahead.current = kind := (congrArg Token.kind ht).trans h

/-- The lookahead where the current token is known. -/
theorem lookahead_eq {s : State} {kind : TokenKind} (h : s.lookahead.current = kind) :
    s.lookahead = ⟨kind, s.lookahead.next, s.lookahead.afterNext, s.lookahead.word⟩ := by
  rw [← h]

/-- What comes next is what is current behind the current token. -/
theorem lookahead_next (s : State) : s.lookahead.next = s.advance.current.kind := rfl

theorem lookahead_afterNext (s : State) :
    s.lookahead.afterNext = s.advance.advance.current.kind := rfl

/-- Two keywords that come next. -/
theorem isPair_eq {s : State} {t t' : Token} {first second : Keyword} (ht : s.current = t)
    (h : t.kind = .keyword first) (ht' : s.advance.current = t') (h' : t'.kind = .keyword second) :
    s.lookahead.isPair first second = true := by
  rw [Lookahead.isPair, Lookahead.isKeyword, Lookahead.nextIsKeyword, lookahead_current ht h,
    lookahead_next, ht', h', beq_self_eq_true, beq_self_eq_true]
  rfl

end State

namespace Rule

/-! ## Runs -/

/-- **What a rule does at a state**: the trees it adds and the state behind it. -/
def Runs (r : Rule) (depth : Nat) (s : State) (f : Forest) (s' : State) : Prop :=
  r.run Nonterminal.parse depth s = ⟨f, s'⟩

namespace Runs

variable {depth : Nat} {s s' s'' : State} {f g : Forest} {r link : Rule} {rules : List Rule}
  {test continues : Lookahead → Bool}

theorem took (h : r.Runs depth s f s') (hs : s.input.Lawful) :
    ∃ taken, Took taken s ⟨f, s'⟩ := by
  have hsteady : ∀ depth goal, Parse.Steady (Nonterminal.parse depth goal) :=
    Took.stepInvariant.nonterminal fun _ => makes_any _
  exact h ▸ steady_run hsteady depth r s hs

theorem lawful (h : r.Runs depth s f s') (hs : s.input.Lawful) : s'.input.Lawful := by
  obtain ⟨taken, htook⟩ := h.took hs
  exact htook.lawful hs

/-- A rule that adds a token leaves less to come. -/
theorem remaining_lt (h : r.Runs depth s f s') (hs : s.input.Lawful)
    (hf : Forest.terminals f ≠ []) : s'.remaining < s.remaining := by
  obtain ⟨taken, htook⟩ := h.took hs
  refine htook.remaining_lt fun hnil => hf ?_
  rw [show Forest.terminals f = taken.map (·.token) from htook.terminals, hnil]
  rfl

/-- So does a rule that takes a token first. -/
theorem remaining_lt_of_takesFirst (h : r.Runs depth s f s') (hs : s.input.Lawful)
    (htakes : r.TakesFirst s.lookahead) : s'.remaining < s.remaining := by
  have hsteady : ∀ depth goal, Parse.Steady (Nonterminal.parse depth goal) :=
    Took.stepInvariant.nonterminal fun _ => makes_any _
  have hless : (r.run Nonterminal.parse depth s).state.remaining < s.remaining :=
    (htakes.run_congr hsteady (fun _ _ _ _ _ => rfl) hs (Nat.le_refl _)).2
  rw [show r.run Nonterminal.parse depth s = ⟨f, s'⟩ from h] at hless
  exact hless

/-! ### Sequences and choices -/

theorem done : Rule.done.Runs depth s [] s := rfl

theorem nil : (all []).Runs depth s [] s := rfl

theorem cons (h : r.Runs depth s f s') (h' : (all rules).Runs depth s' g s'') :
    (all (r :: rules)).Runs depth s (f ++ g) s'' := by
  rw [Runs, run_all_cons, h, Outcome.andThen]
  dsimp only
  rw [h']

/-- A rule that adds nothing here. -/
theorem skip (h : r.Runs depth s [] s) (h' : (all rules).Runs depth s f s') :
    (all (r :: rules)).Runs depth s f s' := h.cons h'

/-- A rule behind which nothing is added. -/
theorem keep (h : r.Runs depth s f s') (h' : (all rules).Runs depth s' [] s'') :
    (all (r :: rules)).Runs depth s f s'' := by
  have hall := h.cons h'
  rwa [List.append_nil] at hall

theorem last (h : r.Runs depth s f s') : (all [r]).Runs depth s f s' := h.keep nil

theorem node {kind : NodeKind} (h : r.Runs depth s f s') :
    (node kind r).Runs depth s [.node kind f] s' := by
  rw [Runs, run_node, h]
  rfl

theorem look {choose : Lookahead → Rule} (hr : choose s.lookahead = r) (h : r.Runs depth s f s') :
    (look choose).Runs depth s f s' := by
  rw [Runs, run_look, hr]
  exact h

theorem branch_pos {no : Rule} (htest : test s.lookahead = true) (h : r.Runs depth s f s') :
    (branch test r no).Runs depth s f s' := look (if_pos htest) h

theorem branch_neg {yes : Rule} (htest : test s.lookahead = false) (h : r.Runs depth s f s') :
    (branch test yes r).Runs depth s f s' :=
  look (if_neg (by rw [htest]; exact Bool.false_ne_true)) h

theorem onlyIf_pos (htest : test s.lookahead = true) (h : r.Runs depth s f s') :
    (onlyIf test r).Runs depth s f s' := branch_pos htest h

theorem onlyIf_neg (htest : test s.lookahead = false) : (onlyIf test r).Runs depth s [] s :=
  branch_neg htest done

/-- A rule is left out or is called for. -/
theorem test_or_eq (h : (onlyIf test r).Runs depth s f s') :
    test s.lookahead = true ∨ s' = s := by
  cases htest : test s.lookahead with
  | true => exact .inl rfl
  | false => exact .inr (congrArg Outcome.state (h.symm.trans (onlyIf_neg htest)))

/-! ### Tokens -/

theorem shift {t : Token} (ht : s.current = t) (h : t.kind.isTakeable = true) :
    Rule.shift.Runs depth s [.token t] s.advance := by
  subst ht
  exact State.shift_of_isTakeable h

/-- A token of a known kind. -/
theorem token {t : Token} {kind : TokenKind} (ht : s.current = t) (hkind : t.kind = kind)
    (h : kind.isTakeable = true) : Rule.shift.Runs depth s [.token t] s.advance :=
  shift ht (hkind ▸ h)

theorem eatKeyword {t : Token} {word : Keyword} (ht : s.current = t)
    (h : t.kind = .keyword word) : (eatKeyword word).Runs depth s [.token t] s.advance :=
  onlyIf_pos (beq_iff_eq.2 (State.lookahead_current ht h)) (token ht h rfl)

theorem eat_neg {kind : TokenKind} (h : s.current.kind ≠ kind) :
    (eat kind).Runs depth s [] s := onlyIf_neg (beq_eq_false_iff_ne.2 h)

theorem expectKeyword {t : Token} {word : Keyword} (ht : s.current = t)
    (h : t.kind = .keyword word) : (expectKeyword word).Runs depth s [.token t] s.advance :=
  branch_pos (beq_iff_eq.2 (State.lookahead_current ht h)) (token ht h rfl)

theorem expect {t : Token} {kind : TokenKind} {what : String} (ht : s.current = t)
    (h : t.kind = kind) (htakes : kind.isTakeable = true) :
    (expect kind what).Runs depth s [.token t] s.advance :=
  branch_pos (beq_iff_eq.2 (State.lookahead_current ht h)) (token ht h htakes)

theorem expectOneOf {t : Token} {words : List Keyword} {word : Keyword} {message : String}
    (ht : s.current = t) (h : t.kind = .keyword word) (hword : word ∈ words) :
    (expectOneOf words message).Runs depth s [.token t] s.advance := by
  refine branch_pos ?_ (token ht h rfl)
  rw [Lookahead.isKeywordIn, State.lookahead_current ht h]
  exact List.contains_iff_mem.2 hword

theorem nameToken {t : Token} {what : String} (ht : s.current = t) (h : t.kind = .identifier) :
    (nameToken what).Runs depth s [.token t] s.advance := by
  refine branch_pos ?_ (token ht h rfl)
  rw [Lookahead.isName, State.lookahead_current ht h]
  rfl

theorem name {t : Token} {kind : NodeKind} {what : String} (ht : s.current = t)
    (h : t.kind = .identifier) :
    (name kind what).Runs depth s [.node kind [.token t]] s.advance := by
  refine branch_pos ?_ (node (token ht h rfl))
  rw [Lookahead.isName, State.lookahead_current ht h]
  rfl

theorem closeParen {t : Token} (ht : s.current = t) (h : t.kind = .rightParen) :
    closeParen.Runs depth s [.token t] s.advance :=
  look (if_pos (beq_iff_eq.2 (State.lookahead_current ht h))) (token ht h rfl)

/-! ### Nonterminals -/

theorem resume {goal : Nonterminal} (hs : s.input.Lawful)
    (h : (ofNonterminal goal).Runs depth s f s') : (resume goal).Runs depth s f s' :=
  (Nonterminal.parse_eq_run hs fun _ _ _ _ _ => rfl).trans h

theorem nested {goal : Nonterminal} (hdepth : depth < maxDepth) (hs : s.input.Lawful)
    (h : (ofNonterminal goal).Runs (depth + 1) s f s') : (nested goal).Runs depth s f s' := by
  rw [Runs, Rule.run, if_pos hdepth]
  exact resume hs h

/-! ### Repetition -/

theorem loop_stop (hstop : continues s.lookahead = false) :
    (loop continues r).Runs depth s [] s := State.repeatWhile_of_stop hstop

/-- A repetition goes on or is over. -/
theorem continues_or_eq (h : (loop continues r).Runs depth s f s') :
    continues s.lookahead = true ∨ s' = s := by
  cases hcontinues : continues s.lookahead with
  | true => exact .inl rfl
  | false => exact .inr (congrArg Outcome.state (h.symm.trans (loop_stop hcontinues)))

theorem loop_more (hcontinues : continues s.lookahead = true) (h : r.Runs depth s f s')
    (hless : s'.remaining < s.remaining) (h' : (loop continues r).Runs depth s' g s'') :
    (loop continues r).Runs depth s (f ++ g) s'' := by
  have hprogress : (r.run Nonterminal.parse depth s).state.remaining < s.remaining := by
    rw [h]
    exact hless
  rw [Runs, Rule.run, State.repeatWhile_of_progress hcontinues hprogress, h, Outcome.andThen]
  dsimp only
  rw [show State.repeatWhile continues (r.run Nonterminal.parse depth) s' = ⟨g, s''⟩ from h']

/-- A lone operand stands for itself. -/
theorem chain_stop {kind : NodeKind} (h : r.Runs depth s f s')
    (hstop : continues s'.lookahead = false) : (chain kind r continues link).Runs depth s f s' := by
  rw [Runs, run_chain_of_stop (by rw [h]; exact hstop)]
  exact h

/-- An operand with links behind it. -/
theorem chain_go {kind : NodeKind} (h : r.Runs depth s f s')
    (hcontinues : continues s'.lookahead = true)
    (hlinks : (loop continues link).Runs depth s' g s'') :
    (chain kind r continues link).Runs depth s [.node kind (f ++ g)] s'' := by
  rw [Runs, run_chain_of_continues (by rw [h]; exact hcontinues), h, Outcome.andThen]
  dsimp only
  rw [show State.repeatWhile continues (link.run Nonterminal.parse depth) s' = ⟨g, s''⟩ from hlinks]
  rfl

/-! ### Lists -/

section Lists

variable {shape : State.ListShape} {t : Token}

/-- An item and what stands behind it. -/
theorem list_item (hs : s.input.Lawful) (hcomma : s.current.kind ≠ .comma)
    (hstarts : shape.startsItem s.current.kind = true) (h : r.Runs depth s f s')
    (hf : Forest.terminals f ≠ [])
    (h' : State.listRounds shape (r.run Nonterminal.parse depth) .separator s' = ⟨g, s''⟩) :
    (list shape r).Runs depth s (f ++ g) s'' := by
  have hround : State.listRound shape (r.run Nonterminal.parse depth) .item s
      = (⟨f, s'⟩, some .separator) := by
    unfold State.listRound
    dsimp only
    rw [if_neg (by simpa using hcomma), if_pos hstarts, h]
  have hless := h.remaining_lt hs hf
  have hweight : State.listWeight .separator s' < State.listWeight .item s := by
    show 2 * s'.remaining + 1 < 2 * s.remaining + 0
    omega
  rw [Runs, Rule.run, State.commaList, State.listRounds_of_progress hround hweight,
    Outcome.andThen]
  dsimp only
  rw [h']

/-- An item with which the list ends. -/
theorem list_last (hs : s.input.Lawful) (hcomma : s.current.kind ≠ .comma)
    (hstarts : shape.startsItem s.current.kind = true) (h : r.Runs depth s f s')
    (hf : Forest.terminals f ≠ []) (hcomma' : s'.current.kind ≠ .comma)
    (hends : s'.atEof = true ∨ shape.follows s'.current.kind = true) :
    (list shape r).Runs depth s f s' := by
  have hround : State.listRound shape (r.run Nonterminal.parse depth) .separator s'
      = (s'.stay, none) := by
    unfold State.listRound
    dsimp only
    rw [if_neg (by simpa using hcomma'), if_pos ((Bool.or_eq_true _ _).mpr hends)]
  have hitem := list_item hs hcomma hstarts h hf (State.listRounds_of_last hround)
  rwa [List.append_nil] at hitem

/-- An item with a comma and more items behind it. -/
theorem list_more (hs : s.input.Lawful) (hcomma : s.current.kind ≠ .comma)
    (hstarts : shape.startsItem s.current.kind = true) (h : r.Runs depth s f s')
    (hf : Forest.terminals f ≠ []) (ht : s'.current = t) (hkind : t.kind = .comma)
    (h' : (list shape r).Runs depth s'.advance g s'') :
    (list shape r).Runs depth s (f ++ .token t :: g) s'' := by
  have htake : s'.take = ⟨[.token t], s'.advance⟩ := by rw [State.take, ht]
  have hround : State.listRound shape (r.run Nonterminal.parse depth) .separator s'
      = (⟨[.token t], s'.advance⟩, some .item) := by
    unfold State.listRound
    dsimp only
    rw [if_pos (by rw [ht, hkind]; rfl), htake]
  have hless := State.remaining_shift (h.lawful hs) (by rw [ht, hkind]; rfl)
  rw [State.shift_comma (ht ▸ hkind), htake] at hless
  replace hless : s'.advance.remaining < s'.remaining := hless
  have hweight : State.listWeight .item s'.advance < State.listWeight .separator s' := by
    show 2 * s'.advance.remaining + 0 < 2 * s'.remaining + 1
    omega
  refine list_item hs hcomma hstarts h hf ?_
  rw [State.listRounds_of_progress hround hweight, Outcome.andThen]
  dsimp only
  rw [show State.listRounds shape (r.run Nonterminal.parse depth) .item s'.advance = ⟨g, s''⟩
    from h']
  rfl

end Lists

end Runs

end Rule

end TolerantSql
